import MockExchange.Roster

/-!
# The retry loops over the packed word

A join, a leave and a reservation each load the packed word, compute what they
want in its place from a local wrapper, and try to exchange the two with a weak
compare-and-swap, as often as it takes. Here the load and the exchange are steps
of their own, between which anybody else may step, and an exchange may fail for
no reason. A successful exchange is one atomic join, leave or reservation of the
queue, and everything else leaves the roster alone.
-/

namespace MockExchange

open Tiling Transition ListUpdate UnpackedReadersAndWriterOffset

/-- The local variables of a retry loop. `loaded` holds between the load and the
exchange. -/
structure CasLoop where
  current : UInt64
  desired : UInt64
  wrapper : UnpackedReadersAndWriterOffset
  loaded : Bool
deriving DecidableEq, Repr

/-- The loop's variables before the first load. -/
def CasLoop.start : CasLoop := ⟨0, 0, unwrap 0, false⟩

/-- Who runs a retry loop: the constructor of a reading queue, `close` of reader
`r`, or a writer that claims `size` bytes for `data`. -/
inductive Caller where
  | constructor (i : Nat)
  | close (r : Nat)
  | writer (i size : Nat) (data : List UInt8)
deriving DecidableEq, Repr

structure CasState where
  roster : Roster
  loops : Caller → Option CasLoop

def CasState.init : CasState := ⟨.init, fun _ => none⟩

def CasState.setLoop (c : CasState) (caller : Caller) (loop : Option CasLoop) : CasState :=
  { c with loops := Function.update c.loops caller loop }

variable (Q : RingSize)

/-- What the loop body makes of the unwrapped word: the mutated wrapper and
`desired`. -/
def Caller.mutate (wrapper : UnpackedReadersAndWriterOffset) :
    Caller → UnpackedReadersAndWriterOffset × UInt64
  | .constructor _ => wrapper.returnAddReader
  | .close _ => wrapper.returnSubReader
  | .writer _ size _ => wrapper.returnAddOffset (UInt64.ofNat
      (bytesToBump Q.bytes wrapper.writeOffset.toNat (size + sizeofMessageHeader)))

/-- The loop body up to the exchange. -/
def CasLoop.load (l : CasLoop) (caller : Caller) (word : UInt64) : CasLoop :=
  let result := caller.mutate Q (unwrap word)
  { l with current := word, wrapper := result.1, desired := result.2, loaded := true }

/-- A failed exchange leaves the word it found in `current`. -/
def CasLoop.retry (l : CasLoop) (word : UInt64) : CasLoop :=
  { l with current := word, loaded := false }

/-- What is on record once the exchange succeeded: `modify_readers` returns its
wrapper as it is, `wait_for_next_write_offset` unwraps `current` again. -/
def CasLoop.finish (l : CasLoop) (R : Roster) : Caller → Roster
  | .constructor _ => { R with
    readersAndWriteOffset := l.desired
    members := R.members ++ [⟨l.wrapper.writeOffset.toNat, none⟩] }
  | .close r => match R.members[r]? with
    | some m => { R with
      readersAndWriteOffset := l.desired
      members := R.members.set r { m with leaveOffset := some l.wrapper.writeOffset.toNat } }
    | none => R
  | .writer _ size data => { R with
    readersAndWriteOffset := l.desired
    log := R.log ++ [Roster.newBlock Q l.current size data] }

/-- A reader that has joined and not left may close, and a writer may claim what
fits the ring. -/
def Roster.MayCall (R : Roster) : Caller → Prop
  | .constructor _ => True
  | .close r => ∃ m ∈ R.members[r]?, m.leaveOffset = none
  | .writer _ size _ => 0 < size ∧ size ≤ Q.bytes - sizeofMessageHeader

instance (R : Roster) (caller : Caller) : Decidable (R.MayCall Q caller) := by
  unfold Roster.MayCall; split <;> infer_instance

inductive CasAction where
  | call (caller : Caller)
  | load (caller : Caller)
  | exchange (caller : Caller) (spurious : Bool)
deriving DecidableEq, Repr

/-- One step of one loop. The weak exchange succeeds if the word is still the
loaded one and it does not fail spuriously. -/
def casStep (c : CasState) : CasAction → Option CasState
  | .call caller =>
    if c.loops caller = none ∧ c.roster.MayCall Q caller then
      some (c.setLoop caller (some .start))
    else none
  | .load caller => (c.loops caller).bind fun l =>
    if l.loaded then none
    else some (c.setLoop caller (some (l.load Q caller c.roster.readersAndWriteOffset)))
  | .exchange caller spurious => (c.loops caller).bind fun l =>
    if l.loaded then
      if c.roster.readersAndWriteOffset = l.current ∧ spurious = false then
        some { c.setLoop caller none with roster := l.finish Q c.roster caller }
      else some (c.setLoop caller (some (l.retry c.roster.readersAndWriteOffset)))
    else none

/-- Never more than 255 readers at once, and fewer than `2 ^ 56` bytes reserved. -/
def WithinLimits (c : CasState) (a : CasAction) : Prop :=
  ∀ d ∈ casStep Q c a, d.roster.activeReaders ≤ 255 ∧ d.roster.reservedBytes < 2 ^ 56

instance (c : CasState) (a : CasAction) : Decidable (WithinLimits Q c a) := by
  unfold WithinLimits; infer_instance

/-- The atomic step of the queue a successful exchange is. -/
def Caller.action : Caller → Action
  | .constructor _ => .join
  | .close r => .leave r
  | .writer _ size data => .reserve size data

section

variable {Q} {c d : CasState} {caller : Caller} {l : CasLoop} {R : Roster}

/-! ### A successful exchange is atomic -/

/-- The locals of a loop between its load and its exchange agree with each
other. -/
def CasLoop.Coherent (Q : RingSize) (l : CasLoop) (caller : Caller) : Prop :=
  l.loaded = true → (l.wrapper, l.desired) = caller.mutate Q (unwrap l.current)

theorem CasLoop.coherent_load (word : UInt64) : (l.load Q caller word).Coherent Q caller :=
  fun _ => rfl

theorem CasLoop.coherent_of_not_loaded (h : l.loaded = false) : l.Coherent Q caller := by
  intro hloaded
  rw [h] at hloaded
  cases hloaded

/-- When the word is still the loaded one, the recorded effect is that of the
atomic step. -/
theorem CasLoop.finish_eq (hloaded : l.loaded = true) (hcoherent : l.Coherent Q caller)
    (hword : R.readersAndWriteOffset = l.current) :
    l.finish Q R caller = R.update Q caller.action := by
  have hpair := hcoherent hloaded
  rw [← hword] at hpair
  have hwrapper : l.wrapper = (caller.mutate Q (unwrap R.readersAndWriteOffset)).1 :=
    congrArg Prod.fst hpair
  have hdesired : l.desired = (caller.mutate Q (unwrap R.readersAndWriteOffset)).2 :=
    congrArg Prod.snd hpair
  cases caller with
  | constructor i =>
    simp only [CasLoop.finish, hwrapper, hdesired]
    rfl
  | close r =>
    simp only [CasLoop.finish, Roster.update, Caller.action, hwrapper, hdesired]
    rfl
  | writer i size data =>
    simp only [CasLoop.finish, ← hword, hdesired]
    rfl

/-! ### Every interleaving -/

/-- What the loops keep whatever the word counts up to. -/
structure LoopInv (Q : RingSize) (c : CasState) : Prop where
  coherent : ∀ caller l, c.loops caller = some l → l.Coherent Q caller
  allowed : ∀ caller l, c.loops caller = some l → c.roster.MayCall Q caller

structure CasInv (Q : RingSize) (c : CasState) : Prop where
  counts : c.roster.Counts
  coherent : ∀ caller l, c.loops caller = some l → l.Coherent Q caller
  allowed : ∀ caller l, c.loops caller = some l → c.roster.MayCall Q caller

theorem LoopInv.init : LoopInv Q CasState.init := by
  constructor <;> simp [CasState.init]

theorem CasInv.init : CasInv Q CasState.init := ⟨.init, LoopInv.init.coherent, LoopInv.init.allowed⟩

/-- A caller in its loop is not affected by what another caller does. -/
theorem Roster.MayCall.update {caller' : Caller} (h : R.MayCall Q caller) (hne : caller ≠ caller')
    : (R.update Q caller'.action).MayCall Q caller := by
  cases caller with
  | constructor => trivial
  | writer => exact h
  | close r =>
    obtain ⟨m, hm, hactive⟩ := h
    refine ⟨m, ?_, hactive⟩
    cases caller' with
    | constructor i =>
      have hlt := lt_of_getElem? hm
      simpa [Roster.update, Caller.action, Roster.join, List.getElem?_append_left hlt] using hm
    | writer => exact hm
    | close r' =>
      have hr : r' ≠ r := fun heq => hne (by rw [heq])
      simp only [Roster.update, Caller.action]
      cases R.members[r']? with
      | none => exact hm
      | some m' => simpa [Roster.leave, List.getElem?_set_ne hr] using hm

/-- One step of a loop: it takes effect as one atomic step, or not at all. -/
inductive CasEffect (Q : RingSize) (c d : CasState) : Prop where
  | local_step (hroster : d.roster = c.roster)
  | atomic (caller : Caller) (hallowed : c.roster.MayCall Q caller)
      (hroster : d.roster = c.roster.update Q caller.action)

theorem Roster.Counts.update (h : R.Counts) (hallowed : R.MayCall Q caller)
    (hreaders : (R.update Q caller.action).activeReaders ≤ 255)
    (hbytes : (R.update Q caller.action).reservedBytes < 2 ^ 56) :
    (R.update Q caller.action).Counts := by
  cases caller with
  | constructor i =>
    refine h.join ?_
    have hcount : R.join.activeReaders ≤ 255 := hreaders
    rw [R.activeReaders_join] at hcount
    omega
  | close r =>
    obtain ⟨m, hm, hactive⟩ := hallowed
    have hm' : R.members[r]? = some m := hm
    simp only [Roster.update, Caller.action, hm']
    exact h.leave hm' hactive
  | writer i size data =>
    refine h.reserve ?_
    have hsum : (R.reserve Q size data).reservedBytes < 2 ^ 56 := hbytes
    rw [R.reservedBytes_reserve, h.reservedBytes_eq] at hsum
    exact hsum

/-- The loops after a local step of `caller`, or after its exchange. -/
theorem CasState.setLoop_cases {loop : Option CasLoop} {caller' : Caller}
    (h : (c.setLoop caller loop).loops caller' = some l) :
    (caller' = caller ∧ loop = some l) ∨ (caller' ≠ caller ∧ c.loops caller' = some l) := by
  simp only [CasState.setLoop, Function.update_apply] at h
  split at h
  · rename_i heq
    exact Or.inl ⟨heq, h⟩
  · rename_i hne
    exact Or.inr ⟨hne, h⟩

theorem LoopInv.setLoop (hi : LoopInv Q c) (hcoherent : l.Coherent Q caller)
    (hallowed : c.roster.MayCall Q caller) : LoopInv Q (c.setLoop caller (some l)) := by
  constructor
  · intro caller' l' h
    rcases CasState.setLoop_cases h with ⟨rfl, heq⟩ | ⟨-, hold⟩
    · rw [← Option.some.inj heq]
      exact hcoherent
    · exact hi.coherent caller' l' hold
  · intro caller' l' h
    rcases CasState.setLoop_cases h with ⟨rfl, -⟩ | ⟨-, hold⟩
    · exact hallowed
    · exact hi.allowed caller' l' hold

/-- A loop that is done leaves the others as allowed as they were. -/
theorem LoopInv.exchanged (hi : LoopInv Q c) :
    LoopInv Q { c.setLoop caller none with roster := c.roster.update Q caller.action } := by
  constructor
  · intro caller' l' h
    rcases CasState.setLoop_cases h with ⟨-, heq⟩ | ⟨-, hold⟩
    · cases heq
    · exact hi.coherent caller' l' hold
  · intro caller' l' h
    rcases CasState.setLoop_cases h with ⟨-, heq⟩ | ⟨hne, hold⟩
    · cases heq
    · exact (hi.allowed caller' l' hold).update hne

theorem LoopInv.step (hi : LoopInv Q c) {a : CasAction} (hstep : casStep Q c a = some d) :
    LoopInv Q d ∧ CasEffect Q c d := by
  cases a with
  | call caller =>
    obtain ⟨⟨-, hallowed⟩, rfl⟩ := eq_of_ite_some hstep
    exact ⟨hi.setLoop (CasLoop.coherent_of_not_loaded rfl) hallowed, .local_step rfl⟩
  | load caller =>
    obtain ⟨l, hl, hstep⟩ := Option.bind_eq_some_iff.mp hstep
    split at hstep
    · cases hstep
    · cases hstep
      exact ⟨hi.setLoop (CasLoop.coherent_load _) (hi.allowed caller l hl), .local_step rfl⟩
  | exchange caller spurious =>
    obtain ⟨l, hl, hstep⟩ := Option.bind_eq_some_iff.mp hstep
    have hallowed := hi.allowed caller l hl
    split at hstep
    · rename_i hloaded
      split at hstep
      · rename_i hexchanged
        have hfinish := CasLoop.finish_eq hloaded (hi.coherent caller l hl) hexchanged.1
        rw [hfinish] at hstep
        cases hstep
        exact ⟨hi.exchanged, .atomic caller hallowed rfl⟩
      · cases hstep
        exact ⟨hi.setLoop (CasLoop.coherent_of_not_loaded rfl) hallowed, .local_step rfl⟩
    · cases hstep

theorem CasInv.loops (hi : CasInv Q c) : LoopInv Q c := ⟨hi.coherent, hi.allowed⟩

theorem CasInv.step (hi : CasInv Q c) {a : CasAction} (hlimits : WithinLimits Q c a)
    (hstep : casStep Q c a = some d) : CasInv Q d ∧ CasEffect Q c d := by
  obtain ⟨hreaders, hbytes⟩ := hlimits d hstep
  obtain ⟨hloops, heffect⟩ := hi.loops.step hstep
  refine ⟨⟨?_, hloops.coherent, hloops.allowed⟩, heffect⟩
  cases heffect with
  | local_step hsame =>
    rw [hsame]
    exact hi.counts
  | atomic caller hallowed hupdate =>
    rw [hupdate] at hreaders hbytes ⊢
    exact hi.counts.update hallowed hreaders hbytes

theorem CasInv.of_reach (hreach : Reach (casStep Q) (WithinLimits Q) CasState.init c) :
    CasInv Q c :=
  hreach.invariant .init (fun _ _ _ hi hlimits hstep => (hi.step hlimits hstep).1)

/-! ### The queue under the loops -/

/-- The queue has the roster, and whoever has not left can still leave. -/
def SameRoster (Q : RingSize) (c : CasState) (s : State) : Prop :=
  CasInv Q c ∧ s.roster = c.roster ∧ ∀ rd ∈ s.readers, rd.leaveOffset = none → rd.pc = .idle

theorem SameRoster.atomic {s : State} (hidle : ∀ rd ∈ s.readers, rd.leaveOffset = none →
    rd.pc = .idle) (hallowed : s.roster.MayCall Q caller) :
    ∃ t, step Q s caller.action = some t ∧
      ∀ rd ∈ t.readers, rd.leaveOffset = none → rd.pc = .idle := by
  cases caller with
  | constructor i =>
    refine ⟨join s, rfl, ?_⟩
    intro rd hrd hstay
    rw [join_readers, List.mem_append, List.mem_singleton] at hrd
    rcases hrd with hold | rfl
    · exact hidle rd hold hstay
    · rfl
  | writer i size data =>
    exact ⟨reserve Q s size data, if_pos hallowed, hidle⟩
  | close r =>
    obtain ⟨m, hm, hactive⟩ := hallowed
    simp only [State.roster, List.getElem?_map, Option.mem_def, Option.map_eq_some_iff] at hm
    obtain ⟨rd, hrd, rfl⟩ := hm
    have hpc := hidle rd (List.mem_of_getElem? hrd) hactive
    refine ⟨leave s r rd, by simp [step, Caller.action, hrd, hpc], ?_⟩
    intro rd' hrd' hstay
    rcases List.mem_or_eq_of_mem_set hrd' with hold | rfl
    · exact hidle rd' hold hstay
    · cases hstay

/-- **The loops refine the atomic steps.** Whatever the interleaving, the roster
is that of a run of the queue in which joins, leaves and reservations are one
step each. -/
theorem exists_atomic_run (hreach : Reach (casStep Q) (WithinLimits Q) CasState.init c) :
    ∃ s, Reach (step Q) (fun _ a => a.keepsRoster = false) State.init s ∧
      s.roster = c.roster := by
  have hsim : ∃ s, Reach (step Q) (fun _ a => a.keepsRoster = false) State.init s ∧
      SameRoster Q c s := by
    refine hreach.simulation (R := SameRoster Q) ⟨.init, rfl, by simp [State.init]⟩ ?_
    rintro c a d s ⟨hi, hroster, hidle⟩ hlimits hstep
    obtain ⟨hi', heffect⟩ := hi.step hlimits hstep
    cases heffect with
    | local_step hsame => exact ⟨s, .refl s, hi', hroster.trans hsame.symm, hidle⟩
    | atomic caller hallowed hupdate =>
      rw [← hroster] at hallowed hupdate
      obtain ⟨t, hatomic, hidle'⟩ := SameRoster.atomic hidle hallowed
      have hkeeps : caller.action.keepsRoster = false := by cases caller <;> rfl
      exact ⟨t, (Reach.refl s).next hkeeps hatomic, hi',
        (Taken.of_step hatomic).roster_eq.trans hupdate.symm, hidle'⟩
  obtain ⟨s, hrun, -, hroster, -⟩ := hsim
  exact ⟨s, hrun, hroster⟩

/-- A block counts exactly the readers that will see it. -/
theorem snapshot_counts_readers (hreach : Reach (casStep Q) (WithinLimits Q) CasState.init c) :
    (∀ b ∈ c.roster.log,
      b.numReaders = c.roster.members.countP (·.countedIn b.offset)) ∧
    ∀ m ∈ c.roster.members,
      Boundary Block.offset c.roster.log c.roster.writeOffset m.joinOffset ∧
      ∀ e, m.leaveOffset = some e →
        Boundary Block.offset c.roster.log c.roster.writeOffset e := by
  obtain ⟨hcounts, -, -⟩ := CasInv.of_reach hreach
  exact ⟨hcounts.counted, fun m hm => ⟨hcounts.joined m hm, hcounts.left m hm⟩⟩

end

/-- A join and a claim race; the claim wins, the join retries, and another claim
is made before the reader leaves. -/
theorem snapshot_counts_readers_race : ∃ c : CasState,
    (∀ b ∈ c.roster.log, b.numReaders = c.roster.members.countP (·.countedIn b.offset)) ∧
      c.roster.log.map Block.numReaders = [0, 1] ∧
      c.roster.members = [⟨19, some 38⟩] := by
  let join : Caller := .constructor 0
  let claim (i : Nat) : Caller := .writer i 1 [7]
  let labels : List CasAction :=
    [.call join, .call (claim 0), .load join, .load (claim 0), .exchange (claim 0) true,
      .load (claim 0), .exchange (claim 0) false, .exchange join false, .load join,
      .exchange join false, .call (claim 1), .load (claim 1), .exchange (claim 1) false,
      .call (.close 0), .load (.close 0), .exchange (.close 0) false]
  have hexec : (exec (casStep .smallest) (WithinLimits .smallest) CasState.init labels).any
      (fun c => decide (c.roster.log.map Block.numReaders = [0, 1] ∧
        c.roster.members = [⟨19, some 38⟩])) = true := by
    decide +kernel
  obtain ⟨c, hrun, hc⟩ := exists_run_of_exec hexec
  exact ⟨c, (snapshot_counts_readers ⟨labels, hrun⟩).1, of_decide_eq_true hc⟩

end MockExchange
