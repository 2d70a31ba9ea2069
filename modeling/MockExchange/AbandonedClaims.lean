import MockExchange.CatchUp

/-!
# Abandoned claims

`claim_buffer` returns a wrapper, and nothing but `commit` or `abort` through a
wrapper of the block settles it. Moving a wrapper copies its span and leaves the
source's in place, and the destructor does nothing, so a claim whose wrappers
are destroyed before one of them was committed or aborted stays where it is for
good, and a wrapper that outlives the releases of its block can still write into
the ring.
-/

namespace MockExchange

open ByteMemory Tiling MessageHeader Memory Transition ListUpdate

variable (Q : RingSize)

/-! ### Writer wrappers -/

/-- An `IpcQueueRaiiWriterWrapper`: the queue object it refers to and the block
under its span. -/
structure WriterHandle where
  writer : Nat
  block : Block
  destroyed : Bool
deriving DecidableEq, Repr

namespace WriterHandle

def new (writer : Nat) (block : Block) : WriterHandle where
  writer := writer
  block := block
  destroyed := false

/-- The move constructor. It leaves `other` as it is. -/
def moveFrom (other : WriterHandle) : WriterHandle := .new other.writer other.block

/-- `~IpcQueueRaiiWriterWrapper() = default`. -/
def destruct (h : WriterHandle) : WriterHandle := { h with destroyed := true }

end WriterHandle

/-- The block counted readers, and all of them have decremented it. -/
def State.ReleasedByReaders (s : State) (b : Block) : Prop :=
  0 < b.numReaders ∧ s.Decremented b.offset

instance (s : State) (off : Nat) : Decidable (s.Decremented off) := by
  unfold State.Decremented; infer_instance

instance (s : State) (b : Block) : Decidable (s.ReleasedByReaders b) := by
  unfold State.ReleasedByReaders; infer_instance

/-- The queue, all writer wrappers there ever were, and the writers that closed.
`flaggedAfterRelease` records that a flag was stored in a block after its readers
released it. -/
structure Wrapped where
  queue : State
  handles : List WriterHandle
  closedWriters : List Nat
  flaggedAfterRelease : Bool

namespace Wrapped

def init : Wrapped where
  queue := .init
  handles := []
  closedWriters := []
  flaggedAfterRelease := false

/-- A wrapper that was not destroyed, moved from or not. -/
def held (w : Wrapped) (i : Nat) : Option WriterHandle :=
  w.handles[i]?.filter fun h => !h.destroyed

/-- One whose writer still has the shared memory mapped. -/
def usable (w : Wrapped) (i : Nat) : Option WriterHandle :=
  (w.held i).filter fun h => !w.closedWriters.contains h.writer

/-- Bytes stored through the span: the `memcpy` of `write_to_buffer`, or what a
caller does with `get_as_span`. -/
def writeSpan (w : Wrapped) (b : Block) (pos : Nat) (data : List UInt8) : Wrapped :=
  { w with queue := { w.queue with
      mem := w.queue.mem.write (b.hdr Q + sizeofMessageHeader + pos) data } }

/-- The `memset` of `abort_buffer`. -/
def clearPayload (w : Wrapped) (b : Block) : Wrapped :=
  { w with queue := { w.queue with
      mem := w.queue.mem.fill (b.hdr Q + sizeofMessageHeader)
        (messageSize w.queue.mem (b.hdr Q)) 0 } }

/-- The flag store of `commit_buffer` and of `abort_buffer`. -/
def storeFlag (w : Wrapped) (b : Block) (stage : Stage) : Wrapped :=
  { w with
    queue := { w.queue.setStage b stage with
      mem := setCommitFlag w.queue.mem (b.hdr Q) stage.flag }
    flaggedAfterRelease := w.flaggedAfterRelease || decide (w.queue.ReleasedByReaders b) }

/-- `close` of a writer leaves the ring and the wrappers as they are. -/
def closeWriter (w : Wrapped) (writer : Nat) : Wrapped :=
  { w with closedWriters := writer :: w.closedWriters }

end Wrapped

/-- `write_to_buffer` is a `writeSpan` and a `commit`, `abort` a `clearPayload`
and an `abort` here. The steps of one wrapper may come in any order. -/
inductive WrappedAction where
  | queue (a : Action)
  | returnWrapper (writer : Nat) (b : Block)
  | move (i : Nat)
  | writeSpan (i pos : Nat) (data : List UInt8)
  | commit (i : Nat)
  | clearPayload (i : Nat)
  | abort (i : Nat)
  | destroy (i : Nat)
  | closeWriter (writer : Nat)
deriving DecidableEq, Repr

/-- The block `insert_skip_message` commits. -/
def Action.commits : Action → Option Block
  | .finishSkip b => some b
  | _ => none

/-- What a claim is filled with and how it ends is up to its wrappers. -/
def Action.isWrapped : Action → Bool
  | .writeToBuffer _ | .abortBuffer _ => true
  | .reserve _ data => !data.isEmpty
  | _ => false

/-- One step of the queue, of a `claim_buffer` that returns, of a wrapper or of
a writer that closes. -/
def wrappedStep (w : Wrapped) : WrappedAction → Option Wrapped
  | .queue a =>
    if a.isWrapped then none
    else (step Q w.queue a).map fun s => { w with
      queue := s
      flaggedAfterRelease := w.flaggedAfterRelease ||
        a.commits.any fun b => decide (w.queue.ReleasedByReaders b) }
  | .returnWrapper writer b =>
    if w.queue.AtStage b .claimed ∧ b.isPadding Q = false ∧ (∀ h ∈ w.handles, h.block ≠ b) ∧
        writer ∉ w.closedWriters then
      some { w with handles := w.handles ++ [.new writer b] }
    else none
  | .move i => (w.held i).map fun h => { w with handles := w.handles ++ [h.moveFrom] }
  | .writeSpan i pos data => (w.usable i).bind fun h =>
    if pos + data.length + sizeofMessageHeader ≤ h.block.length then
      some (w.writeSpan Q h.block pos data)
    else none
  | .commit i => (w.usable i).map fun h => w.storeFlag Q h.block .committed
  | .clearPayload i => (w.usable i).map fun h => w.clearPayload Q h.block
  | .abort i => (w.usable i).map fun h => w.storeFlag Q h.block .aborted
  | .destroy i => (w.held i).map fun h => { w with handles := w.handles.set i h.destruct }
  | .closeWriter writer =>
    if writer ∈ w.closedWriters then none else some (w.closeWriter writer)

/-! ### What an abandoned claim must not do -/

/-- Readers come and stay; what writers do is not restricted. -/
def ClaimsRun (w : Wrapped) : WrappedAction → Prop
  | .queue a => StayingRun Q w.queue a
  | _ => True

/-- The last wrapper of a block is destroyed only after the block was committed
or aborted. A wrapper stores before that, or as long as some reader has not
decremented its block. -/
def KeepsClaims (w : Wrapped) : WrappedAction → Prop
  | .destroy i => ∀ h ∈ w.handles[i]?, (w.queue.stage h.block.offset).settled = true ∨
    ∃ h' ∈ w.handles.eraseIdx i, h'.destroyed = false ∧ h'.block = h.block
  | .writeSpan i _ _ | .commit i | .clearPayload i | .abort i =>
    ∀ h ∈ w.handles[i]?, (w.queue.stage h.block.offset).settled = false ∨
      ¬ w.queue.ReleasedByReaders h.block
  | _ => True

instance (s : State) (a : Action) : Decidable (StayingRun Q s a) := by
  apply Action.casesOn (motive := fun a => Decidable (StayingRun Q s a)) a <;> intros <;>
    dsimp only [StayingRun, Sound] <;> infer_instance

instance (w : Wrapped) (a : WrappedAction) : Decidable (ClaimsRun Q w a) := by
  apply WrappedAction.casesOn (motive := fun a => Decidable (ClaimsRun Q w a)) a <;> intros <;>
    dsimp only [ClaimsRun] <;> infer_instance

instance (w : Wrapped) (a : WrappedAction) : Decidable (KeepsClaims w a) := by
  apply WrappedAction.casesOn (motive := fun a => Decidable (KeepsClaims w a)) a <;> intros <;>
    dsimp only [KeepsClaims] <;> infer_instance

def Wrapped.AllDestroyed (w : Wrapped) : Prop := ∀ h ∈ w.handles, h.destroyed = true

/-- Every reservation is a skip message that was committed or has been returned
in a wrapper. -/
def Wrapped.NoClaimRunning (w : Wrapped) : Prop :=
  ∀ b ∈ w.queue.log,
    if b.isPadding Q = true then w.queue.stage b.offset = .committed
    else ∃ h ∈ w.handles, h.block = b

/-- The flag of `b` says READY_FOR_CONSUMER or ABORTED. -/
def State.Flagged (s : State) (b : Block) : Prop :=
  commitFlag s.mem (b.hdr Q) = CommitFlag.readyForConsumer.toByte ∨
    commitFlag s.mem (b.hdr Q) = CommitFlag.aborted.toByte

/-- All readers have decremented `b` and the last of them is clearing it. -/
def State.BeingCleared (s : State) (b : Block) : Prop :=
  s.Decremented b.offset ∧ ∃ rd ∈ s.readers, rd.isClearing ∧ rd.absReadOffset = b.finish

/-- No block stands in a reader's way. -/
structure Unblocked (s : State) : Prop where
  flagged : ∀ b ∈ s.log, s.readOffset ≤ b.offset → s.Flagged Q b ∨ s.BeingCleared b
  flaggedBetweenReleases : (∀ rd ∈ s.readers, ¬ rd.isClearing) →
    ∀ b ∈ s.log, s.readOffset ≤ b.offset → s.Flagged Q b
  canCatchUp : ∀ r < s.readers.length, s.CanCatchUp Q r

/-! ### The invariant -/

structure WrappedInv (w : Wrapped) : Prop where
  queue : Inv Q w.queue
  staying : w.queue.Staying
  noData : ∀ b ∈ w.queue.log, b.data = []
  claimed : ∀ h ∈ w.handles, h.block ∈ w.queue.log ∧ h.block.isPadding Q = false ∧
    5 ≤ (w.queue.stage h.block.offset).rank
  kept : ∀ h ∈ w.handles, (w.queue.stage h.block.offset).settled = true ∨
    ∃ h' ∈ w.handles, h'.destroyed = false ∧ h'.block = h.block
  once : w.flaggedAfterRelease = false

section

variable {Q} {s t : State} {w v : Wrapped} {b c : Block} {i : Nat} {h : WriterHandle}

theorem Wrapped.getElem?_of_held (hheld : w.held i = some h) :
    w.handles[i]? = some h ∧ h.destroyed = false := by
  simpa [held, Option.filter_eq_some_iff] using hheld

theorem Wrapped.getElem?_of_usable (husable : w.usable i = some h) :
    w.handles[i]? = some h ∧ h.destroyed = false := by
  rw [usable, Option.filter_eq_some_iff] at husable
  exact getElem?_of_held husable.1

theorem Stage.ne_waiting_of_claimed {st : Stage} (hrank : 5 ≤ st.rank) : st ≠ .waiting := by
  rintro rfl
  simp [rank] at hrank

/-- One pass of the wait loop admits the claim or changes nothing. -/
theorem loadReadOffset_cases (s : State) (b : Block) :
    loadReadOffset Q s b = s ∨ loadReadOffset Q s b = s.setStage b .admitted := by
  rw [loadReadOffset]
  by_cases hwait : mustWait Q s b = true
  · rw [if_pos hwait]
    exact Or.inl rfl
  · rw [if_neg hwait]
    exact Or.inr rfl

theorem Stage.rank_lt_of_isWritingHeader {st : Stage} (h : st.isWritingHeader = true) :
    st.rank < 5 := by
  cases st <;> simp [isWritingHeader] at h <;> decide

/-- The steps of the queue leave a claim that was returned as it is. -/
theorem Taken.keeps_returned {a : Action} (htaken : Taken Q s a t) (hi : Inv Q s)
    (hout : a.isWrapped = false) (hc : c ∈ s.log) (hnormal : c.isPadding Q = false)
    (hclaimed : 5 ≤ (s.stage c.offset).rank) :
    c ∈ t.log ∧ t.stage c.offset = s.stage c.offset := by
  -- the block of another claim's step starts elsewhere
  have helsewhere : ∀ (b : Block) (stage' : Stage), (s.stage b.offset).rank < 5 →
      Function.update s.stage b.offset stage' c.offset = s.stage c.offset := by
    intro b stage' hrank
    apply Function.update_of_ne
    intro heq
    rw [heq] at hclaimed
    omega
  by_cases hlocal : a.isLocal = true
  · have hsame := htaken.sameShared hlocal
    exact ⟨by rw [hsame.log]; exact hc, by rw [hsame.stage]⟩
  · cases htaken with
    | reserve =>
      refine ⟨List.mem_append_left _ hc, Function.update_of_ne ?_ _ _⟩
      have hlt := hi.offset_lt hc
      change c.offset ≠ s.writeOffset
      omega
    | @loadReadOffset b hb =>
      rcases loadReadOffset_cases (Q := Q) s b with heq | heq
      · rw [heq]
        exact ⟨hc, rfl⟩
      · rw [heq]
        exact ⟨hc, helsewhere b _ (by rw [hb.2]; decide)⟩
    | @storeHeader b hb hst =>
      obtain ⟨stage', m', heq, -⟩ := storeHeader_eq hst
      rw [heq]
      exact ⟨hc, helsewhere b stage' (Stage.rank_lt_of_isWritingHeader hst)⟩
    | @finishSkip b hb hpad =>
      refine ⟨hc, Function.update_of_ne ?_ _ _⟩
      intro heq
      rw [hi.eq_of_offset_eq hc hb.1 heq, hpad] at hnormal
      cases hnormal
    | writeToBuffer => cases hout
    | abortBuffer => cases hout
    | fetchSub => exact ⟨hc, rfl⟩
    | @clearStep r hdr total rd cleared =>
      obtain ⟨hlog, hstage, -, -⟩ := clearStep_keeps s r rd cleared hdr total
      exact ⟨by rw [hlog]; exact hc, by rw [hstage]⟩
    | _ => exact absurd rfl hlocal

/-- The queue reserves without data here. -/
theorem Taken.noData {a : Action} (htaken : Taken Q s a t) (hout : a.isWrapped = false)
    (hdata : ∀ b ∈ s.log, b.data = []) : ∀ b ∈ t.log, b.data = [] := by
  cases htaken.change with
  | @reserve size data =>
    have hempty : data = [] := by
      simpa [Action.isWrapped] using hout
    intro b hb
    rcases List.mem_append.mp hb with hold | hnew
    · exact hdata b hold
    · rw [List.mem_singleton] at hnew
      rw [hnew]
      exact hempty
  | @clearStep r hdr total rd cleared =>
    obtain ⟨hlog, -, -, -⟩ := clearStep_keeps s r rd cleared hdr total
    rw [hlog]
    exact hdata
  | _ => exact hdata

/-! ### Steps of a wrapper -/

/-- A claim that was not committed or aborted is owed by all readers it counts. -/
theorem WrappedInv.owed (hw : WrappedInv Q w) (hmem : h ∈ w.handles)
    (hkeeps : (w.queue.stage h.block.offset).settled = false ∨
      ¬ w.queue.ReleasedByReaders h.block) : ¬ w.queue.Decremented h.block.offset := by
  obtain ⟨hlog, -, -⟩ := hw.claimed h hmem
  rcases hkeeps with hunsettled | hnot
  · have hlive := hw.queue.live_of_unsettled hlog hunsettled
    rw [hw.queue.decremented_iff hlog]
    omega
  · exact fun hall => hnot ⟨(hw.queue.counted _ hlog).1, hall⟩

/-- A block that is claimed and still owed is in the ring as its header says. -/
theorem WrappedInv.blockMem (hw : WrappedInv Q w) (hmem : h ∈ w.handles)
    (howed : ¬ w.queue.Decremented h.block.offset) :
    0 < w.queue.pendingCount h.block.offset ∧
      BlockMem Q w.queue.mem h.block (w.queue.stage h.block.offset)
        (w.queue.pendingCount h.block.offset) := by
  obtain ⟨hlog, -, -⟩ := hw.claimed h hmem
  rw [hw.queue.decremented_iff hlog] at howed
  have hpos := Nat.pos_of_ne_zero howed
  obtain ⟨rd, hrd, hp⟩ := State.pendingCount_pos_iff.mp hpos
  exact ⟨hpos, hw.queue.block _ hlog (hw.queue.owed rd hrd _ hlog hp)⟩

/-- A wrapper stores into a block some reader still owes. -/
theorem WrappedInv.store (hw : WrappedInv Q w) (hmem : h ∈ w.handles)
    (howed : ¬ w.queue.Decremented h.block.offset) {mem' : Memory} {stage' : Stage}
    (hsettles : (w.queue.stage h.block.offset).settled = true → stage'.settled = true)
    (hframe : h.block.Frame Q w.queue.mem mem')
    (hsame : SameOn w.queue.mem mem' (h.block.hdr Q) 17)
    (hflag : stage'.settled = true →
      commitFlag mem' (h.block.hdr Q) = stage'.flag.toByte) :
    Inv Q { w.queue with
      mem := mem', stage := Function.update w.queue.stage h.block.offset stage' } := by
  obtain ⟨hlog, -, hclaimed⟩ := hw.claimed h hmem
  obtain ⟨hpos, hold⟩ := hw.blockMem hmem howed
  have hwindow := hw.queue.window _ hlog (Stage.ne_waiting_of_claimed hclaimed)
  apply hw.queue.owedStep hlog hpos hwindow hw.queue.asserts hsettles hframe
  apply hold.rewrite hclaimed hsame (fun hst _ => hflag hst)
  intro _ _
  rw [hw.noData _ hlog]
  rfl

/-- What it stores behind the header leaves the flag to the one that was there. -/
theorem WrappedInv.storePayload (hw : WrappedInv Q w) (hmem : h ∈ w.handles)
    (howed : ¬ w.queue.Decremented h.block.offset) {mem' : Memory} {pos n : Nat}
    (hout : SameOutside w.queue.mem mem' (h.block.hdr Q + 18 + pos) n)
    (hfits : pos + n + 18 ≤ h.block.length) : WrappedInv Q
      { w with queue := { w.queue with mem := mem' } } := by
  obtain ⟨hpos, hold⟩ := hw.blockMem hmem howed
  have hinv : Inv Q { w.queue with
      mem := mem', stage := Function.update w.queue.stage h.block.offset
        (w.queue.stage h.block.offset) } := by
    apply hw.store hmem howed id (.of_sameOutside hout (by omega) (by omega))
      (hout.sameOn (by omega))
    intro hst
    rw [commitFlag_congr (hout.sameOn (by omega))]
    exact hold.commitFlag hst hpos
  rw [Function.update_eq_self] at hinv
  exact ⟨hinv, hw.staying, hw.noData, hw.claimed, hw.kept, hw.once⟩

theorem WrappedInv.storeFlag (hw : WrappedInv Q w) (hmem : h ∈ w.handles)
    (howed : ¬ w.queue.Decremented h.block.offset) {stage : Stage} (hst : stage.settled = true) :
    WrappedInv Q (w.storeFlag Q h.block stage) := by
  have hlen := (hw.queue.shape _ (hw.claimed h hmem).1).length_ge
  have hout := setCommitFlag_sameOutside w.queue.mem (h.block.hdr Q) stage.flag
  have hrank := Stage.rank_of_settled hst
  refine
    { queue := ?_, staying := hw.staying, noData := hw.noData, claimed := ?_, kept := ?_,
      once := ?_ }
  · exact hw.store hmem howed (fun _ => hst) (.of_sameOutside hout (by omega) (by omega))
      (hout.sameOn (by omega)) (fun _ => commitFlag_set _)
  · intro x hx
    obtain ⟨hlog, hnormal, hclaimed⟩ := hw.claimed x hx
    refine ⟨hlog, hnormal, ?_⟩
    change 5 ≤ (Function.update w.queue.stage h.block.offset stage x.block.offset).rank
    rw [Function.update_apply]
    split
    · omega
    · exact hclaimed
  · intro x hx
    change (Function.update w.queue.stage h.block.offset stage x.block.offset).settled = true ∨ _
    rw [Function.update_apply]
    split
    · exact Or.inl hst
    · exact hw.kept x hx
  · have hnot : ¬ w.queue.ReleasedByReaders h.block := fun hall => howed hall.2
    change (w.flaggedAfterRelease || decide (w.queue.ReleasedByReaders h.block)) = false
    rw [hw.once, decide_eq_false hnot]
    rfl

theorem WrappedInv.writeSpan (hw : WrappedInv Q w) (hmem : h ∈ w.handles)
    (howed : ¬ w.queue.Decremented h.block.offset) {pos : Nat} {data : List UInt8}
    (hfits : pos + data.length + 18 ≤ h.block.length) :
    WrappedInv Q (w.writeSpan Q h.block pos data) :=
  hw.storePayload hmem howed (write_sameOutside data) hfits

theorem WrappedInv.clearPayload (hw : WrappedInv Q w) (hmem : h ∈ w.handles)
    (howed : ¬ w.queue.Decremented h.block.offset) :
    WrappedInv Q (w.clearPayload Q h.block) := by
  obtain ⟨hlog, -, hclaimed⟩ := hw.claimed h hmem
  obtain ⟨hpos, hold⟩ := hw.blockMem hmem howed
  have hsize := hold.messageSize (by omega) hpos
  have hadd := (hw.queue.shape _ hlog).messageSize_add
  have hout := fill_sameOutside (m := w.queue.mem) (a := h.block.hdr Q + 18 + 0)
    (n := messageSize w.queue.mem (h.block.hdr Q)) 0
  exact hw.storePayload hmem howed hout (by omega)

/-- A new wrapper keeps its block's claim as long as it is held. -/
theorem WrappedInv.addHandle (hw : WrappedInv Q w) (hlog : b ∈ w.queue.log)
    (hnormal : b.isPadding Q = false) (hclaimed : 5 ≤ (w.queue.stage b.offset).rank)
    (writer : Nat) :
    WrappedInv Q { w with handles := w.handles ++ [.new writer b] } := by
  refine
    { queue := hw.queue, staying := hw.staying, noData := hw.noData, claimed := ?_, kept := ?_,
      once := hw.once }
  · intro x hx
    rcases List.mem_append.mp hx with hold | hnew
    · exact hw.claimed x hold
    · rw [List.mem_singleton] at hnew
      rw [hnew]
      exact ⟨hlog, hnormal, hclaimed⟩
  · intro x hx
    rcases List.mem_append.mp hx with hold | hnew
    · rcases hw.kept x hold with hst | ⟨h', hh', hlive, hsame⟩
      · exact Or.inl hst
      · exact Or.inr ⟨h', List.mem_append_left _ hh', hlive, hsame⟩
    · refine Or.inr ⟨x, hx, ?_, rfl⟩
      rw [List.mem_singleton] at hnew
      rw [hnew]
      rfl

theorem WrappedInv.destroy (hw : WrappedInv Q w) (hget : w.handles[i]? = some h)
    (hkept : (w.queue.stage h.block.offset).settled = true ∨
      ∃ h' ∈ w.handles.eraseIdx i, h'.destroyed = false ∧ h'.block = h.block) :
    WrappedInv Q { w with handles := w.handles.set i h.destruct } := by
  have hmem := List.mem_of_getElem? hget
  -- the wrapper that keeps a claim is another one or its block is settled
  have hothers : ∀ x ∈ w.handles, (w.queue.stage x.block.offset).settled = true ∨
      ∃ h' ∈ w.handles.set i h.destruct, h'.destroyed = false ∧ h'.block = x.block := by
    intro x hx
    have hdestroyed : (w.queue.stage h.block.offset).settled = true ∨
        ∃ h' ∈ w.handles.set i h.destruct, h'.destroyed = false ∧ h'.block = h.block := by
      rcases hkept with hst | ⟨h', hh', hlive, hsame⟩
      · exact Or.inl hst
      · exact Or.inr ⟨h', mem_set_of_mem_eraseIdx hh', hlive, hsame⟩
    rcases hw.kept x hx with hst | ⟨h', hh', hlive, hsame⟩
    · exact Or.inl hst
    · by_cases heq : h' = h
      · rw [← hsame, heq]
        exact hdestroyed
      · exact Or.inr ⟨h', mem_set_of_ne hget hh' heq, hlive, hsame⟩
  refine
    { queue := hw.queue, staying := hw.staying, noData := hw.noData, claimed := ?_, kept := ?_,
      once := hw.once }
  · exact forall_mem_set hw.claimed (hw.claimed h hmem)
  · exact forall_mem_set hothers (hothers h hmem)

/-- **Every step that keeps its claims keeps the invariant.** -/
theorem WrappedInv.step (hw : WrappedInv Q w) {a : WrappedAction} (hrun : ClaimsRun Q w a)
    (hkeeps : KeepsClaims w a) (hstep : wrappedStep Q w a = some v) : WrappedInv Q v := by
  cases a with
  | queue a =>
    simp only [wrappedStep] at hstep
    split at hstep
    · cases hstep
    · rename_i hout
      rw [Bool.not_eq_true] at hout
      obtain ⟨t, ht, rfl⟩ := Option.map_eq_some_iff.mp hstep
      have htaken := Taken.of_step ht
      have hsound := StayingRun.sound hrun hw.queue hw.staying
      refine
        { queue := hw.queue.step hsound ht,
          staying := hw.staying.step htaken.change (StayingRun.ne_leave hrun),
          noData := htaken.noData hout hw.noData, claimed := ?_, kept := ?_, once := ?_ }
      · intro x hx
        obtain ⟨hlog, hnormal, hclaimed⟩ := hw.claimed x hx
        obtain ⟨hlog', hstage⟩ := htaken.keeps_returned hw.queue hout hlog hnormal hclaimed
        refine ⟨hlog', hnormal, ?_⟩
        rw [hstage]
        exact hclaimed
      · intro x hx
        obtain ⟨hlog, hnormal, hclaimed⟩ := hw.claimed x hx
        obtain ⟨-, hstage⟩ := htaken.keeps_returned hw.queue hout hlog hnormal hclaimed
        rw [hstage]
        exact hw.kept x hx
      · have hnone : (a.commits.any fun b => decide (w.queue.ReleasedByReaders b)) = false := by
          cases htaken with
          | @finishSkip b hb =>
            have hlive := hw.queue.live_of_unsettled hb.1 (by rw [hb.2]; rfl)
            have hnot : ¬ w.queue.ReleasedByReaders b := by
              rintro ⟨-, hall⟩
              rw [hw.queue.decremented_iff hb.1] at hall
              omega
            exact decide_eq_false hnot
          | _ => rfl
        simp only [hw.once, hnone, Bool.or_false]
  | returnWrapper writer b =>
    obtain ⟨⟨hb, hnormal, -, -⟩, rfl⟩ := eq_of_ite_some hstep
    exact hw.addHandle hb.1 hnormal (by rw [hb.2]; decide) writer
  | move i =>
    obtain ⟨h, hheld, rfl⟩ := Option.map_eq_some_iff.mp hstep
    obtain ⟨hget, -⟩ := Wrapped.getElem?_of_held hheld
    obtain ⟨hlog, hnormal, hclaimed⟩ := hw.claimed h (List.mem_of_getElem? hget)
    exact hw.addHandle hlog hnormal hclaimed h.writer
  | writeSpan i pos data =>
    obtain ⟨h, husable, hstep⟩ := Option.bind_eq_some_iff.mp hstep
    obtain ⟨hget, -⟩ := Wrapped.getElem?_of_usable husable
    obtain ⟨hfits, rfl⟩ := eq_of_ite_some hstep
    have hmem := List.mem_of_getElem? hget
    exact hw.writeSpan hmem (hw.owed hmem (hkeeps h hget)) hfits
  | commit i =>
    obtain ⟨h, husable, rfl⟩ := Option.map_eq_some_iff.mp hstep
    obtain ⟨hget, -⟩ := Wrapped.getElem?_of_usable husable
    have hmem := List.mem_of_getElem? hget
    exact hw.storeFlag hmem (hw.owed hmem (hkeeps h hget)) rfl
  | clearPayload i =>
    obtain ⟨h, husable, rfl⟩ := Option.map_eq_some_iff.mp hstep
    obtain ⟨hget, -⟩ := Wrapped.getElem?_of_usable husable
    have hmem := List.mem_of_getElem? hget
    exact hw.clearPayload hmem (hw.owed hmem (hkeeps h hget))
  | abort i =>
    obtain ⟨h, husable, rfl⟩ := Option.map_eq_some_iff.mp hstep
    obtain ⟨hget, -⟩ := Wrapped.getElem?_of_usable husable
    have hmem := List.mem_of_getElem? hget
    exact hw.storeFlag hmem (hw.owed hmem (hkeeps h hget)) rfl
  | destroy i =>
    obtain ⟨h, hheld, rfl⟩ := Option.map_eq_some_iff.mp hstep
    obtain ⟨hget, -⟩ := Wrapped.getElem?_of_held hheld
    exact hw.destroy hget (hkeeps h hget)
  | closeWriter writer =>
    simp only [wrappedStep] at hstep
    split at hstep
    · cases hstep
    · cases hstep
      exact ⟨hw.queue, hw.staying, hw.noData, hw.claimed, hw.kept, hw.once⟩

theorem WrappedInv.init : WrappedInv Q Wrapped.init where
  queue := .init
  staying := by simp [State.Staying, Wrapped.init, State.init]
  noData := by simp [Wrapped.init, State.init]
  claimed := by simp [Wrapped.init]
  kept := by simp [Wrapped.init]
  once := rfl

/-! ### No claim is lost -/

/-- With all wrappers gone and no claim under way, everything is settled. -/
theorem WrappedInv.settled (hw : WrappedInv Q w) (hgone : w.AllDestroyed)
    (hnone : w.NoClaimRunning Q) : ∀ b ∈ w.queue.log, (w.queue.stage b.offset).settled = true := by
  intro b hb
  have hclaim := hnone b hb
  split at hclaim
  · rw [hclaim]
    rfl
  · obtain ⟨x, hx, rfl⟩ := hclaim
    rcases hw.kept x hx with hst | ⟨h', hh', hlive, -⟩
    · exact hst
    · rw [hgone h' hh'] at hlive
      cases hlive

/-- A settled block a reader still owes carries its flag, and one nobody owes is
being cleared. -/
theorem Inv.unblocked (hi : Inv Q s) (hstay : s.Staying)
    (hsettled : ∀ b ∈ s.log, (s.stage b.offset).settled = true) : Unblocked Q s := by
  have hflagged : ∀ b ∈ s.log, s.readOffset ≤ b.offset → s.Flagged Q b ∨ s.BeingCleared b := by
    intro b hb hlive
    by_cases hzero : s.pendingCount b.offset = 0
    · exact Or.inr ⟨(hi.decremented_iff hb).mpr hzero, hi.cleared b hb hlive hzero⟩
    · have hst := hsettled b hb
      have hflag := (hi.block b hb hlive).commitFlag hst (Nat.pos_of_ne_zero hzero)
      rcases Stage.settled_iff.mp hst with hcommitted | haborted
      · rw [hcommitted] at hflag
        exact Or.inl (Or.inl hflag)
      · rw [haborted] at hflag
        exact Or.inl (Or.inr hflag)
  refine ⟨hflagged, ?_, ?_⟩
  · intro hnone b hb hlive
    rcases hflagged b hb hlive with hflag | ⟨-, rd, hrd, hclearing, -⟩
    · exact hflag
    · exact absurd hclearing (hnone rd hrd)
  · intro r hr
    exact hi.canCatchUp hstay hsettled (List.getElem?_eq_getElem hr)

/-- Where every destroyed claim was settled and no wrapper of a settled claim
stores once its readers are through, no claim blocks the queue. -/
theorem unblocked_of_keepsClaims (hreach : Reach (wrappedStep Q)
    (fun w a => ClaimsRun Q w a ∧ KeepsClaims w a) Wrapped.init w) :
    w.flaggedAfterRelease = false ∧
      (w.AllDestroyed → w.NoClaimRunning Q → Unblocked Q w.queue) := by
  have hw : WrappedInv Q w :=
    hreach.invariant .init fun w a v hw hok hstep => hw.step hok.1 hok.2 hstep
  exact ⟨hw.once, fun hgone hnone => hw.queue.unblocked hw.staying (hw.settled hgone hnone)⟩

end

/-- The claim of a 28-byte message, up to the wrapper that is returned. -/
def claimActions (b : Block) : List WrappedAction :=
  [.queue (.reserve 28 []), .queue (.loadReadOffset b), .queue (.storeHeader b),
    .queue (.storeHeader b), .queue (.storeHeader b), .queue (.storeHeader b),
    .returnWrapper 0 b]

/-- A claim that is moved and committed through the new wrapper, both wrappers
gone, and the message read. -/
theorem unblocked_of_keepsClaims_moved :
    ∃ w : Wrapped, w.flaggedAfterRelease = false ∧ Unblocked .smallest w.queue ∧
      w.queue.readOffset = 46 := by
  let b : Block := ⟨0, 46, 28, 1, []⟩
  let release : List WrappedAction := List.replicate 6 (.queue (.releaseStep 0))
  let labels : List WrappedAction :=
    [.queue .join] ++ claimActions b ++
      [.move 0, .destroy 0, .writeSpan 1 0 [7], .commit 1, .destroy 1, .closeWriter 0,
        .queue (.poll 0), .queue (.callRelease 0)] ++ release
  have hexec : (exec (wrappedStep .smallest)
      (fun w a => ClaimsRun .smallest w a ∧ KeepsClaims w a) Wrapped.init labels).any
      (fun w => decide (w.queue.readOffset = 46 ∧ w.queue.log = [b] ∧
        w.handles.map WriterHandle.block = [b, b] ∧ (∀ h ∈ w.handles, h.destroyed = true))) =
      true := by
    decide +kernel
  obtain ⟨w, hrun, hs⟩ := exists_run_of_exec hexec
  obtain ⟨hread, hlog, hblocks, hgone⟩ := of_decide_eq_true hs
  obtain ⟨hflag, hunblocked⟩ := unblocked_of_keepsClaims ⟨labels, hrun⟩
  refine ⟨w, hflag, hunblocked hgone ?_, hread⟩
  intro c hc
  rw [hlog, List.mem_singleton] at hc
  rw [hc, if_neg (by decide)]
  have hmem : b ∈ w.handles.map WriterHandle.block := by simp [hblocks]
  exact List.mem_map.mp hmem

/-- A wrapper destroyed without a commit leaves a block whose flag is never set,
and one that was moved from and outlives the release sets a flag again. -/
theorem claim_abandoned :
    (∃ w, Reach (wrappedStep .smallest) (ClaimsRun .smallest) Wrapped.init w ∧
      w.AllDestroyed ∧ w.NoClaimRunning .smallest ∧ ¬ Unblocked .smallest w.queue) ∧
    ∃ w, Reach (wrappedStep .smallest) (ClaimsRun .smallest) Wrapped.init w ∧
      w.flaggedAfterRelease = true := by
  let b : Block := ⟨0, 46, 28, 1, []⟩
  constructor
  · let labels : List WrappedAction := [.queue .join] ++ claimActions b ++ [.destroy 0]
    have hexec : (exec (wrappedStep .smallest) (ClaimsRun .smallest) Wrapped.init labels).any
        (fun w => decide (w.queue.log = [b] ∧ w.queue.readOffset = 0 ∧
          commitFlag w.queue.mem 0 = 0 ∧ w.queue.readers = [.joinedAt 0] ∧
            w.handles = [⟨0, b, true⟩])) = true := by
      decide +kernel
    obtain ⟨w, hrun, hs⟩ := exists_run_of_exec hexec
    obtain ⟨hlog, hread, hflag, hreaders, hhandles⟩ := of_decide_eq_true hs
    refine ⟨w, ⟨labels, hrun⟩, by simp [Wrapped.AllDestroyed, hhandles], ?_, ?_⟩
    · intro c hc
      rw [hlog, List.mem_singleton] at hc
      rw [hc, if_neg (by decide)]
      exact ⟨⟨0, b, true⟩, by simp [hhandles], rfl⟩
    · intro hunblocked
      have hidle : ∀ rd ∈ w.queue.readers, ¬ rd.isClearing := by
        rw [hreaders]
        simp [Reader.joinedAt, Reader.isClearing]
      have hnot := hunblocked.flaggedBetweenReleases hidle b (by simp [hlog]) (by simp [hread])
      change commitFlag w.queue.mem 0 = _ ∨ commitFlag w.queue.mem 0 = _ at hnot
      rw [hflag] at hnot
      revert hnot
      decide
  · let release : List WrappedAction := List.replicate 6 (.queue (.releaseStep 0))
    let labels : List WrappedAction :=
      [.queue .join] ++ claimActions b ++
        [.move 0, .commit 1, .destroy 1, .queue (.poll 0), .queue (.callRelease 0)] ++
          release ++ [.commit 0]
    have hexec : (exec (wrappedStep .smallest) (ClaimsRun .smallest) Wrapped.init labels).any
        (fun w => w.flaggedAfterRelease) = true := by
      decide +kernel
    obtain ⟨w, hrun, hs⟩ := exists_run_of_exec hexec
    exact ⟨w, ⟨labels, hrun⟩, hs⟩

end MockExchange
