import MockExchange.Lib.Transition
import MockExchange.Queue

/-!
# Python with-blocks over one publication

`ClaimedBuffer.__enter__` claims a block through `archive_pub_claim`, the body
fills it in, and `__exit__` calls `archive_pub_commit` unless the body raised.
The claims wait in `to_commit` on the C++ side, and a commit takes all of them,
whichever with-block they belong to. With-blocks nest, so the one that exits is
the innermost of those being executed.

`SharedSession` puts the publication on its queue: the readers release and clear
the blocks that are ready, the queue hands their bytes out again, and its other
users write elsewhere.
-/

namespace MockExchange

open ByteMemory Memory MessageHeader Transition

/-! ### The C++ side -/

/-- `IpcQueueRaiiWriterWrapper`: where the claimed block starts and how long it
is. `number` counts the claims of the publication, to tell blocks apart that
use the same bytes at different times. -/
structure WriterWrapper where
  number : Nat
  buffer : Nat
  bufferSize : Nat
deriving DecidableEq, Repr

/-- `IpcQueue::commit_buffer`. -/
def commitBuffer (m : Memory) (hdr : Nat) : Memory := setCommitFlag m hdr .readyForConsumer

def WriterWrapper.commit (m : Memory) (wrapper : WriterWrapper) : Memory :=
  commitBuffer m wrapper.buffer

/-- Where `get_as_span` starts. -/
def WriterWrapper.payload (wrapper : WriterWrapper) : Nat :=
  wrapper.buffer + sizeofMessageHeader

/-- `archive::ArchivePublication` with the memory of its queue. `claims` and
`committed` record history. -/
structure Publication where
  mem : Memory
  toCommit : List WriterWrapper
  claims : Nat
  committed : List WriterWrapper

namespace Publication

def init : Publication := ⟨fun _ => 0, [], 0, []⟩

/-- `claim_buffer`, when the queue hands out the block whose header is at `hdr`. -/
def claimBuffer (pub : Publication) (hdr size : Nat) : WriterWrapper × Publication :=
  let wrapper : WriterWrapper := ⟨pub.claims, hdr, size + sizeofMessageHeader⟩
  (wrapper, { pub with toCommit := pub.toCommit ++ [wrapper], claims := pub.claims + 1 })

/-- `commit` commits every claim that is left. -/
def commit (pub : Publication) : Publication :=
  { pub with
    mem := pub.toCommit.foldl WriterWrapper.commit pub.mem
    toCommit := []
    committed := pub.committed ++ pub.toCommit }

end Publication

/-! ### The Python side -/

/-- A `ctypes` message class: `sizeof` and `TEMPLATE_ID`. -/
structure MessageClass where
  sizeof : Nat
  templateId : Nat
deriving DecidableEq, Repr

/-- `sizeof` of the `MessageHeader` every message class starts with. -/
def sizeofPyMessageHeader : Nat := 24

/-- The header fields `__enter__` stores. -/
def storePyMessageHeader (m : Memory) (payload : Nat) (messageType : MessageClass) : Memory :=
  let m := m.store (payload + 2) 2 messageType.templateId
  let m := m.store (payload + 4) 2 1
  let m := m.store (payload + 6) 2 1
  m.store payload 2 (messageType.sizeof - sizeofPyMessageHeader)

/-- A Python agent inside its with-blocks, the innermost first, and how the
bodies of the others ended. -/
structure Session where
  pub : Publication
  running : List WriterWrapper
  ended : List WriterWrapper
  raised : List WriterWrapper

def Session.init : Session := ⟨.init, [], [], []⟩

namespace Session

def enter (s : Session) (hdr : Nat) (messageType : MessageClass) : Session :=
  let (wrapper, pub) := s.pub.claimBuffer hdr messageType.sizeof
  { s with
    pub := { pub with mem := storePyMessageHeader pub.mem wrapper.payload messageType }
    running := wrapper :: s.running }

/-- The body assigns to fields of its message. -/
def assign (s : Session) (wrapper : WriterWrapper) (offset : Nat) (bytes : List UInt8) : Session :=
  { s with pub := { s.pub with mem := s.pub.mem.write (wrapper.payload + offset) bytes } }

/-- `__exit__` of the innermost with-block, with or without an exception. -/
def exit (s : Session) (wrapper : WriterWrapper) (rest : List WriterWrapper) (raised : Bool) :
    Session :=
  if raised then { s with running := rest, raised := s.raised ++ [wrapper] }
  else { s with running := rest, ended := s.ended ++ [wrapper], pub := s.pub.commit }

def publicationCommit (s : Session) : Session := { s with pub := s.pub.commit }

def withMem (s : Session) (mem : Memory) : Session := { s with pub := { s.pub with mem := mem } }

/-- The claims of the publication, however far their bodies are. -/
def claimed (s : Session) : List WriterWrapper := s.running ++ s.ended ++ s.raised

end Session

inductive PyAction where
  | enter (hdr : Nat) (messageType : MessageClass)
  | assign (offset : Nat) (bytes : List UInt8)
  | exit (raised : Bool)
  | publicationCommit
deriving DecidableEq, Repr

def pyStep (s : Session) : PyAction → Option Session
  | .enter hdr messageType => some (s.enter hdr messageType)
  | .assign offset bytes => match s.running with
    | wrapper :: _ =>
      if offset + bytes.length + sizeofMessageHeader ≤ wrapper.bufferSize then
        some (s.assign wrapper offset bytes)
      else none
    | [] => none
  | .exit raised => match s.running with
    | wrapper :: rest => some (s.exit wrapper rest raised)
    | [] => none
  | .publicationCommit => some s.publicationCommit

/-! ### The publication on its queue -/

/-- A session, and the claims whose blocks the readers have released. -/
structure SharedSession where
  session : Session
  released : List WriterWrapper

/-- A block does not meet `[lo, lo + n)`. -/
def WriterWrapper.Apart (wrapper : WriterWrapper) (lo n : Nat) : Prop :=
  wrapper.buffer + wrapper.bufferSize ≤ lo ∨ lo + n ≤ wrapper.buffer

instance (wrapper : WriterWrapper) (lo n : Nat) : Decidable (wrapper.Apart lo n) := by
  unfold WriterWrapper.Apart; infer_instance

namespace SharedSession

def init : SharedSession := ⟨.init, []⟩

def mem (s : SharedSession) : Memory := s.session.pub.mem

/-- The block of the claim is still its own. -/
def Live (s : SharedSession) (w : WriterWrapper) : Prop :=
  w ∈ s.session.claimed ∧ w ∉ s.released

instance (s : SharedSession) (w : WriterWrapper) : Decidable (s.Live w) := by
  unfold Live; infer_instance

def Ready (s : SharedSession) (w : WriterWrapper) : Prop :=
  commitFlag s.mem w.buffer = CommitFlag.readyForConsumer.toByte

instance (s : SharedSession) (w : WriterWrapper) : Decidable (s.Ready w) := by
  unfold Ready; infer_instance

/-- The last reader of a block clears it. -/
def release (s : SharedSession) (w : WriterWrapper) : SharedSession :=
  let m := s.mem.fill w.payload (w.bufferSize - sizeofMessageHeader) 0
  let m := setMessageSize m w.buffer 0
  let m := setType m w.buffer .normal
  ⟨s.session.withMem (setCommitFlag m w.buffer .notReady), s.released ++ [w]⟩

end SharedSession

inductive SharedAction where
  | python (a : PyAction)
  | release (wrapper : WriterWrapper)
  | others (mem : Memory)

def sharedStep (s : SharedSession) : SharedAction → Option SharedSession
  | .python a => (pyStep s.session a).map fun session => { s with session := session }
  | .release wrapper => if s.Live wrapper ∧ s.Ready wrapper then some (s.release wrapper) else none
  | .others mem => some { s with session := s.session.withMem mem }

/-- What the queue promises. A claim gets a block for its message that meets none
of the publication's live blocks and is not marked ready, and nobody else touches
the flags of these. Every message class starts with the message header. -/
def QueueKeeps (s : SharedSession) : SharedAction → Prop
  | .python (.enter hdr messageType) =>
    sizeofPyMessageHeader ≤ messageType.sizeof ∧
      commitFlag s.mem hdr ≠ CommitFlag.readyForConsumer.toByte ∧
      ∀ w ∈ s.session.claimed, w ∉ s.released →
        w.Apart hdr (messageType.sizeof + sizeofMessageHeader)
  | .others mem => ∀ w ∈ s.session.claimed, w ∉ s.released →
      commitFlag mem w.buffer = commitFlag s.mem w.buffer
  | _ => True

instance (s : SharedSession) (a : SharedAction) : Decidable (QueueKeeps s a) := by
  unfold QueueKeeps; split <;> infer_instance

/-- At a commit no other with-block is being executed, and no body has raised. -/
def CommitsAlone (s : SharedSession) : SharedAction → Prop
  | .python (.exit false) => s.session.running.tail = [] ∧ s.session.raised = []
  | .python .publicationCommit => s.session.running = [] ∧ s.session.raised = []
  | _ => True

instance (s : SharedSession) (a : SharedAction) : Decidable (CommitsAlone s a) := by
  unfold CommitsAlone; split <;> infer_instance

section

variable {s t : Session} {a : PyAction} {w : WriterWrapper} {hdr : Nat}

/-! ### What a commit writes -/

theorem WriterWrapper.commit_commitFlag (m : Memory) (w : WriterWrapper) :
    commitFlag (w.commit m) hdr =
      if hdr = w.buffer then CommitFlag.readyForConsumer.toByte else commitFlag m hdr := by
  split
  · rename_i heq
    rw [heq]
    exact commitFlag_set _
  · rename_i hne
    have hsame := setCommitFlag_sameOutside m w.buffer .readyForConsumer
    exact hsame _ (by omega)

/-- A commit raises the flags of the claims that wait for it and no others. -/
theorem Publication.commit_commitFlag (pub : Publication) (hdr : Nat) :
    commitFlag pub.commit.mem hdr =
      if ∃ w ∈ pub.toCommit, hdr = w.buffer then CommitFlag.readyForConsumer.toByte
      else commitFlag pub.mem hdr := by
  have hfold : ∀ (ws : List WriterWrapper) (m : Memory),
      commitFlag (ws.foldl WriterWrapper.commit m) hdr =
        if ∃ w ∈ ws, hdr = w.buffer then CommitFlag.readyForConsumer.toByte
        else commitFlag m hdr := by
    intro ws
    induction ws with
    | nil => simp
    | cons w ws ih =>
      intro m
      rw [List.foldl_cons, ih, WriterWrapper.commit_commitFlag]
      by_cases hw : hdr = w.buffer
      · simp [hw]
      · simp [hw]
  exact hfold pub.toCommit pub.mem

/-- Committing a block of the queue is the end of its writer's `write_to_buffer`. -/
theorem writeToBuffer_mem (Q : RingSize) (s : State) (b : Block) : (writeToBuffer Q s b).mem =
    commitBuffer (s.mem.write (b.hdr Q + sizeofMessageHeader) b.data) (b.hdr Q) := rfl

/-! ### Every claim is numbered once -/

/-- Every claim is numbered once. -/
structure Session.Numbered (s : Session) : Prop where
  nodup : s.claimed.Nodup
  below : ∀ w ∈ s.claimed, w.number < s.pub.claims

theorem Session.Numbered.init : Session.init.Numbered := by
  constructor
  · exact List.nodup_nil
  · intro w hw
    cases hw

theorem Session.Numbered.of_perm (h : s.Numbered) (hperm : t.claimed.Perm s.claimed)
    (hclaims : t.pub.claims = s.pub.claims) : t.Numbered := by
  constructor
  · exact hperm.nodup_iff.mpr h.nodup
  · intro w hw
    rw [hclaims]
    exact h.below w (hperm.mem_iff.mp hw)

theorem Session.Numbered.enter (h : s.Numbered) (hdr : Nat) (messageType : MessageClass) :
    (s.enter hdr messageType).Numbered := by
  constructor
  · refine List.nodup_cons.mpr ⟨?_, h.nodup⟩
    intro hmem
    have hlt := h.below _ hmem
    exact absurd hlt (Nat.lt_irrefl _)
  · intro w hw
    rcases List.mem_cons.mp hw with rfl | hold
    · exact Nat.lt_succ_self _
    · exact Nat.lt_succ_of_lt (h.below w hold)

theorem Session.claimed_exit {rest : List WriterWrapper} (hrunning : s.running = w :: rest)
    (raised : Bool) : (s.exit w rest raised).claimed.Perm s.claimed := by
  have hmoved : ∀ x y : List WriterWrapper, (x ++ [w] ++ y).Perm (w :: (x ++ y)) := by
    intro x y
    rw [List.append_assoc]
    exact List.perm_middle
  cases raised with
  | true =>
    simpa [Session.claimed, Session.exit, hrunning] using
      hmoved (rest ++ s.ended ++ s.raised) []
  | false =>
    simpa [Session.claimed, Session.exit, hrunning] using
      hmoved (rest ++ s.ended) s.raised

end

/-! ### Which blocks are ready -/

theorem storePyMessageHeader_sameOutside (m : Memory) (payload : Nat) (messageType : MessageClass) :
    SameOutside m (storePyMessageHeader m payload messageType) payload 8 := by
  have h1 := store_sameOutside (m := m) (a := payload + 2) (w := 2) messageType.templateId
  have h2 := h1.mono (a := payload) (n := 8) (by omega) (by omega)
  have h3 := h2.trans ((store_sameOutside (a := payload + 4) (w := 2) 1).mono (by omega) (by omega))
  have h4 := h3.trans ((store_sameOutside (a := payload + 6) (w := 2) 1).mono (by omega) (by omega))
  exact h4.trans ((store_sameOutside (a := payload) (w := 2) _).mono (by omega) (by omega))

namespace SharedSession

variable {s t : SharedSession} {a : SharedAction} {v w : WriterWrapper} {m : Memory} {lo n : Nat}

/-- The live blocks lie apart, each with room for both headers. -/
structure Blocks (s : SharedSession) : Prop where
  numbered : s.session.Numbered
  apart : ∀ v w, s.Live v → s.Live w → v ≠ w → v.Apart w.buffer w.bufferSize
  size : ∀ w ∈ s.session.claimed, sizeofMessageHeader + sizeofPyMessageHeader ≤ w.bufferSize

structure Inv (s : SharedSession) : Prop where
  blocks : s.Blocks
  waiting : ∀ w ∈ s.session.running ++ s.session.raised, w ∈ s.session.pub.toCommit
  unfinished : ∀ w ∈ s.session.running ++ s.session.raised, ¬ s.Ready w
  released : ∀ w ∈ s.released, w ∈ s.session.ended

theorem Inv.init : SharedSession.init.Inv := by
  refine ⟨⟨.init, ?_, ?_⟩, ?_, ?_, ?_⟩
  · intro v w hv
    cases hv.1
  · intro w hw
    cases hw
  · intro w hw
    cases hw
  · intro w hw
    cases hw
  · intro w hw
    cases hw

/-- The blocks do not change when claims only change their place in the session. -/
theorem Blocks.of_perm (h : s.Blocks) (hperm : t.session.claimed.Perm s.session.claimed)
    (hclaims : t.session.pub.claims = s.session.pub.claims)
    (hreleased : ∀ w ∈ s.released, w ∈ t.released) : t.Blocks := by
  have hlive : ∀ w, t.Live w → s.Live w := by
    intro w hw
    exact ⟨hperm.mem_iff.mp hw.1, fun hrel => hw.2 (hreleased w hrel)⟩
  refine ⟨h.numbered.of_perm hperm hclaims, ?_, ?_⟩
  · intro v w hv hw hne
    exact h.apart v w (hlive v hv) (hlive w hw) hne
  · intro w hw
    exact h.size w (hperm.mem_iff.mp hw)

/-- A block that is being filled in or was given up is never released. -/
theorem Inv.live_of_unfinished (hi : s.Inv) (hw : w ∈ s.session.running ++ s.session.raised) :
    s.Live w := by
  have hnodup := hi.blocks.numbered.nodup
  rw [Session.claimed, List.nodup_append, List.nodup_append] at hnodup
  obtain ⟨⟨-, -, hrunning⟩, -, hraised⟩ := hnodup
  have hclaimed : w ∈ s.session.claimed := by
    simp only [Session.claimed, List.mem_append] at hw ⊢
    tauto
  refine ⟨hclaimed, ?_⟩
  intro hrel
  have hended := hi.released w hrel
  rcases List.mem_append.mp hw with hw | hw
  · exact hrunning w hw w hended rfl
  · exact hraised w (List.mem_append_right _ hended) w hw rfl

/-- Whatever is claimed and ready has ended without an exception. -/
theorem Inv.ended_of_ready (hi : s.Inv) (hw : w ∈ s.session.claimed) (hready : s.Ready w) :
    w ∈ s.session.ended := by
  have hnot := hi.unfinished w
  simp only [Session.claimed, List.mem_append] at hw hnot
  tauto

/-- A store that lies apart from a block keeps its flag. -/
theorem Blocks.flag_of_apart (h : s.Blocks) (hw : w ∈ s.session.claimed) (hapart : w.Apart lo n)
    (hsame : SameOutside s.mem m lo n) : commitFlag m w.buffer = commitFlag s.mem w.buffer := by
  have hsize := h.size w hw
  unfold sizeofMessageHeader at hsize
  refine commitFlag_congr (hsame.sameOn ?_)
  rcases hapart with hbefore | hbehind
  · left
    omega
  · right
    omega

/-! ### The steps -/

theorem Inv.enter (hi : s.Inv) {hdr : Nat} {messageType : MessageClass}
    (hkeeps : QueueKeeps s (.python (.enter hdr messageType))) :
    Inv { s with session := s.session.enter hdr messageType } := by
  obtain ⟨hheader, hflag, hapart⟩ := hkeeps
  have hstored := storePyMessageHeader_sameOutside s.mem (hdr + sizeofMessageHeader) messageType
  refine ⟨⟨hi.blocks.numbered.enter hdr messageType, ?_, ?_⟩, ?_, ?_, hi.released⟩
  · intro v w hv hw hne
    rcases List.mem_cons.mp hv.1 with rfl | hv' <;> rcases List.mem_cons.mp hw.1 with rfl | hw'
    · exact absurd rfl hne
    · exact (hapart w hw' hw.2).symm
    · exact hapart v hv' hv.2
    · exact hi.blocks.apart v w ⟨hv', hv.2⟩ ⟨hw', hw.2⟩ hne
  · intro w hw
    rcases List.mem_cons.mp hw with rfl | hw'
    · change _ ≤ messageType.sizeof + sizeofMessageHeader
      omega
    · exact hi.blocks.size w hw'
  · intro w hw
    rcases List.mem_cons.mp hw with rfl | hw'
    · exact List.mem_append_right _ (List.mem_singleton.mpr rfl)
    · exact List.mem_append_left _ (hi.waiting w hw')
  · intro w hw
    rcases List.mem_cons.mp hw with rfl | hw'
    · have hkept : commitFlag _ hdr = commitFlag s.mem hdr := commitFlag_congr
        (hstored.sameOn (by unfold sizeofMessageHeader; omega))
      exact fun hready => hflag (hkept.symm.trans hready)
    · have hlive := hi.live_of_unfinished hw'
      have hkept := hi.blocks.flag_of_apart hlive.1 (hapart w hlive.1 hlive.2)
        (hstored.mono (by omega) (by unfold sizeofPyMessageHeader at hheader; omega))
      exact fun hready => hi.unfinished w hw' (hkept.symm.trans hready)

/-- Stores into one live block keep the flags of the others. -/
theorem Inv.not_ready_of_ne (hi : s.Inv) (hv : s.Live v) (hne : w ≠ v)
    (hw : w ∈ s.session.running ++ s.session.raised)
    (hsame : SameOutside s.mem m v.buffer v.bufferSize) :
    commitFlag m w.buffer ≠ CommitFlag.readyForConsumer.toByte := by
  have hlive := hi.live_of_unfinished hw
  have hkept := hi.blocks.flag_of_apart hlive.1 (hi.blocks.apart w v hlive hv hne) hsame
  rw [hkept]
  exact hi.unfinished w hw

theorem Inv.assign (hi : s.Inv) {rest : List WriterWrapper}
    (hrunning : s.session.running = v :: rest)
    {offset : Nat} {bytes : List UInt8}
    (hfits : offset + bytes.length + sizeofMessageHeader ≤ v.bufferSize) :
    Inv { s with session := s.session.assign v offset bytes } := by
  refine ⟨hi.blocks.of_perm (.refl _) rfl fun _ hw => hw, hi.waiting, ?_, hi.released⟩
  have hv := hi.live_of_unfinished (w := v) (by rw [hrunning]; simp)
  have hwritten := write_sameOutside (m := s.mem) (a := v.payload + offset) bytes
  have hpayload : v.payload = v.buffer + sizeofMessageHeader := rfl
  intro w hw
  by_cases hne : w = v
  · subst hne
    have hkept : commitFlag _ w.buffer = commitFlag s.mem w.buffer := commitFlag_congr
      (hwritten.sameOn (by unfold sizeofMessageHeader at hpayload; omega))
    exact fun hready => hi.unfinished w hw (hkept.symm.trans hready)
  · exact hi.not_ready_of_ne hv hne hw (hwritten.mono (by omega) (by omega))

theorem Inv.raise (hi : s.Inv) {rest : List WriterWrapper}
    (hrunning : s.session.running = v :: rest) :
    Inv { s with session := s.session.exit v rest true } := by
  have hperm := Session.claimed_exit hrunning true
  have hunfinished : ∀ w ∈ rest ++ (s.session.raised ++ [v]),
      w ∈ s.session.running ++ s.session.raised := by
    intro w hw
    rw [hrunning]
    simp only [List.mem_append, List.mem_cons] at hw ⊢
    tauto
  exact ⟨hi.blocks.of_perm hperm rfl fun _ hw => hw, fun w hw => hi.waiting w (hunfinished w hw),
    fun w hw => hi.unfinished w (hunfinished w hw), hi.released⟩

/-- A commit with nothing else unfinished leaves nothing unfinished. -/
theorem Inv.exit (hi : s.Inv) {rest : List WriterWrapper} (hrunning : s.session.running = v :: rest)
    (halone : CommitsAlone s (.python (.exit false))) :
    Inv { s with session := s.session.exit v rest false } := by
  obtain ⟨htail, hraised⟩ := halone
  have hperm := Session.claimed_exit hrunning false
  have hnone : rest ++ s.session.raised = [] := by
    rw [hrunning] at htail
    rw [hraised, show rest = [] from htail, List.append_nil]
  have hno : ∀ w, w ∉ rest ++ s.session.raised := by
    rw [hnone]
    intro w hw
    cases hw
  exact ⟨hi.blocks.of_perm hperm rfl fun _ hw => hw, fun w hw => absurd hw (hno w),
    fun w hw => absurd hw (hno w), fun w hw => List.mem_append_left _ (hi.released w hw)⟩

theorem Inv.publicationCommit (hi : s.Inv)
    (halone : CommitsAlone s (.python .publicationCommit)) :
    Inv { s with session := s.session.publicationCommit } := by
  obtain ⟨hrunning, hraised⟩ := halone
  have hno : ∀ w, w ∉ s.session.running ++ s.session.raised := by
    rw [hrunning, hraised]
    intro w hw
    cases hw
  exact ⟨hi.blocks.of_perm (.refl _) rfl fun _ hw => hw, fun w hw => absurd hw (hno w),
    fun w hw => absurd hw (hno w), hi.released⟩

theorem release_sameOutside (hsize : sizeofMessageHeader ≤ w.bufferSize) :
    SameOutside s.mem (s.release w).mem w.buffer w.bufferSize := by
  unfold sizeofMessageHeader at hsize
  have hpayload : w.payload = w.buffer + 18 := rfl
  have hbody := fill_sameOutside (m := s.mem) (a := w.payload)
    (n := w.bufferSize - sizeofMessageHeader) 0
  unfold sizeofMessageHeader at hbody
  have h1 := hbody.mono (a := w.buffer) (n := w.bufferSize) (by omega) (by omega)
  have h2 := h1.trans ((setMessageSize_sameOutside _ w.buffer 0).mono (by omega) (by omega))
  have h3 := h2.trans ((setType_sameOutside _ w.buffer .normal).mono (by omega) (by omega))
  exact h3.trans ((setCommitFlag_sameOutside _ w.buffer .notReady).mono (by omega) (by omega))

theorem Inv.release (hi : s.Inv) (hv : s.Live v) (hready : s.Ready v) : (s.release v).Inv := by
  have hsize := hi.blocks.size v hv.1
  have hsame := release_sameOutside (s := s) (w := v) (by omega)
  refine ⟨hi.blocks.of_perm (.refl _) rfl fun w hw => List.mem_append_left _ hw, hi.waiting, ?_, ?_⟩
  · intro w hw
    have hne : w ≠ v := by
      rintro rfl
      exact hi.unfinished w hw hready
    exact hi.not_ready_of_ne hv hne hw hsame
  · intro w hw
    rcases List.mem_append.mp hw with hold | hnew
    · exact hi.released w hold
    · rw [List.mem_singleton.mp hnew]
      exact hi.ended_of_ready hv.1 hready

theorem Inv.others (hi : s.Inv) (hkeeps : QueueKeeps s (.others m)) :
    Inv { s with session := s.session.withMem m } := by
  refine ⟨hi.blocks.of_perm (.refl _) rfl fun _ hw => hw, hi.waiting, ?_, hi.released⟩
  intro w hw hready
  have hlive := hi.live_of_unfinished hw
  exact hi.unfinished w hw ((hkeeps w hlive.1 hlive.2).symm.trans hready)

theorem Inv.step (hi : s.Inv) (hkeeps : QueueKeeps s a) (halone : CommitsAlone s a)
    (hstep : sharedStep s a = some t) : t.Inv := by
  cases a with
  | release wrapper =>
    simp only [sharedStep] at hstep
    split at hstep
    · rename_i hok
      cases hstep
      exact hi.release hok.1 hok.2
    · cases hstep
  | others m =>
    cases hstep
    exact hi.others hkeeps
  | python a =>
    obtain ⟨session, hpy, rfl⟩ := Option.map_eq_some_iff.mp hstep
    cases a with
    | enter hdr messageType =>
      cases hpy
      exact hi.enter hkeeps
    | assign offset bytes =>
      simp only [pyStep] at hpy
      split at hpy
      · rename_i hrunning
        split at hpy
        · rename_i hfits
          cases hpy
          exact hi.assign hrunning hfits
        · cases hpy
      · cases hpy
    | exit raised =>
      simp only [pyStep] at hpy
      split at hpy
      · rename_i hrunning
        cases hpy
        cases raised with
        | true => exact hi.raise hrunning
        | false => exact hi.exit hrunning halone
      · cases hpy
    | publicationCommit =>
      cases hpy
      exact hi.publicationCommit halone

/-- A commit that does not meet the condition makes an unfinished message ready. -/
theorem Inv.commitsAlone_of_not_ready (hi : s.Inv) (hstep : sharedStep s a = some t)
    (hnone : ∀ w ∈ t.session.running ++ t.session.raised, ¬ t.Ready w) : CommitsAlone s a := by
  have hcommit : ∀ w ∈ s.session.running ++ s.session.raised,
      commitFlag s.session.pub.commit.mem w.buffer = CommitFlag.readyForConsumer.toByte := by
    intro w hw
    rw [Publication.commit_commitFlag, if_pos ⟨w, hi.waiting w hw, rfl⟩]
  cases a with
  | release wrapper => trivial
  | others m => trivial
  | python a =>
    obtain ⟨session, hpy, rfl⟩ := Option.map_eq_some_iff.mp hstep
    cases a with
    | enter hdr messageType => trivial
    | assign offset bytes => trivial
    | exit raised =>
      cases raised with
      | true => trivial
      | false =>
        simp only [pyStep] at hpy
        split at hpy
        · rename_i wrapper rest hrunning
          cases hpy
          rw [hrunning] at hcommit
          constructor
          · rw [hrunning]
            refine List.eq_nil_iff_forall_not_mem.mpr fun w hw => ?_
            exact hnone w (List.mem_append_left _ hw)
              (hcommit w (List.mem_append_left _ (List.mem_cons_of_mem _ hw)))
          · refine List.eq_nil_iff_forall_not_mem.mpr fun w hw => ?_
            exact hnone w (List.mem_append_right _ hw) (hcommit w (List.mem_append_right _ hw))
        · cases hpy
    | publicationCommit =>
      cases hpy
      refine List.append_eq_nil_iff.mp (List.eq_nil_iff_forall_not_mem.mpr fun w hw => ?_)
      exact hnone w hw (hcommit w hw)

/-- The claimed blocks that are ready, and those the readers have released, are
those of messages whose bodies ended without an exception. -/
structure OnlyEndedReady (s : SharedSession) : Prop where
  ready : ∀ w, s.Live w → s.Ready w → w ∈ s.session.ended
  running : ∀ w ∈ s.session.running, s.Live w ∧ ¬ s.Ready w
  raised : ∀ w ∈ s.session.raised, s.Live w ∧ ¬ s.Ready w
  released : ∀ w ∈ s.released, w ∈ s.session.ended

end SharedSession

/-- Where every commit finds no other with-block being executed and no body that
raised, a message that is being filled in or whose body raised is never ready. -/
theorem committed_after_end {s : SharedSession} (hreach : Reach sharedStep
    (fun s a => QueueKeeps s a ∧ CommitsAlone s a) .init s) : s.OnlyEndedReady := by
  have hi : s.Inv := hreach.invariant .init
    (fun s a t hi hok hstep => hi.step hok.1 hok.2 hstep)
  refine ⟨fun w hlive => hi.ended_of_ready hlive.1, ?_, ?_, hi.released⟩
  · intro w hw
    have hunfinished := List.mem_append_left s.session.raised hw
    exact ⟨hi.live_of_unfinished hunfinished, hi.unfinished w hunfinished⟩
  · intro w hw
    have hunfinished := List.mem_append_right s.session.running hw
    exact ⟨hi.live_of_unfinished hunfinished, hi.unfinished w hunfinished⟩

/-- Two with-blocks one after the other; the readers release the first block,
and it is claimed again. -/
theorem committed_after_end_in_sequence : ∃ s : SharedSession,
    s.session.running.map WriterWrapper.buffer = [0] ∧
      (∃ w, s.Live w ∧ s.Ready w ∧ w.buffer = 73) ∧ s.released.length = 1 ∧ s.OnlyEndedReady := by
  let messageType : MessageClass := ⟨55, 1⟩
  let labels : List SharedAction :=
    [.python (.enter 0 messageType), .python (.assign 24 [1, 1]), .python (.exit false),
      .python (.enter 73 messageType), .release ⟨0, 0, 73⟩, .python (.exit false),
      .python .publicationCommit, .python (.enter 0 messageType), .python (.assign 24 [1, 1])]
  have hexec : (exec sharedStep (fun s a => QueueKeeps s a ∧ CommitsAlone s a) .init labels).any
      (fun s => decide (s.session.running.map WriterWrapper.buffer = [0] ∧
        (s.Live ⟨1, 73, 73⟩ ∧ s.Ready ⟨1, 73, 73⟩) ∧ s.released.length = 1)) = true := by
    decide +kernel
  obtain ⟨s, hrun, hs⟩ := exists_run_of_exec hexec
  obtain ⟨hrunning, ⟨hlive, hready⟩, hreleased⟩ := of_decide_eq_true hs
  exact ⟨s, hrunning, ⟨_, hlive, hready, rfl⟩, hreleased, committed_after_end ⟨labels, hrun⟩⟩

/-- A message whose body raised goes out with the next one, and a message that
is being filled in with the one claimed inside its with-block. -/
theorem unfinished_committed :
    (∃ s, Reach sharedStep QueueKeeps .init s ∧
      ∃ w ∈ s.session.raised, s.Live w ∧ s.Ready w) ∧
    ∃ s, Reach sharedStep QueueKeeps .init s ∧
      ∃ w ∈ s.session.running, s.Live w ∧ s.Ready w := by
  let messageType : MessageClass := ⟨55, 1⟩
  constructor
  · let labels : List SharedAction :=
      [.python (.enter 0 messageType), .python (.exit true), .python (.enter 73 messageType),
        .python (.exit false)]
    have hexec : (exec sharedStep QueueKeeps .init labels).any
        (fun s => decide (∃ w ∈ s.session.raised, s.Live w ∧ s.Ready w)) = true := by
      decide +kernel
    obtain ⟨s, hrun, hs⟩ := exists_run_of_exec hexec
    exact ⟨s, ⟨labels, hrun⟩, of_decide_eq_true hs⟩
  · let labels : List SharedAction :=
      [.python (.enter 0 messageType), .python (.enter 73 messageType), .python (.exit false)]
    have hexec : (exec sharedStep QueueKeeps .init labels).any
        (fun s => decide (∃ w ∈ s.session.running, s.Live w ∧ s.Ready w)) = true := by
      decide +kernel
    obtain ⟨s, hrun, hs⟩ := exists_run_of_exec hexec
    exact ⟨s, ⟨labels, hrun⟩, of_decide_eq_true hs⟩

end MockExchange
