import MockExchange.Lib.ListUpdate
import MockExchange.Lib.Transition
import MockExchange.PackedWord

/-!
# Closing down

Every agent that closes loads the packed word, takes itself out of one of the
two counters, loads `num_writers` and decides whether to unlink the name. A
reader unlinks if it finds no writers, a writer if it finds none and had found
no readers when it loaded the word, before it took itself out. So whether
somebody unlinks is decided when `num_writers` gets to zero: by the readers that
have not loaded it yet, and by the writers that have not and saw no readers.
`decrement_readers_until` touches neither counter and is left out.
-/

namespace MockExchange

open Transition ListUpdate UnpackedReadersAndWriterOffset

/-- Where an agent is in `close`. -/
inductive ClosePc where
  | loadingWord
  | leaving
  | loadingNumWriters
  | deciding (numWriters : UInt32)
  | closed
deriving DecidableEq, Repr

structure Closer where
  isWriter : Bool
  wrapper : UnpackedReadersAndWriterOffset
  pc : ClosePc
deriving DecidableEq, Repr

/-- An attached agent that calls `close`. -/
def Closer.start (isWriter : Bool) : Closer := ⟨isWriter, unwrap 0, .loadingWord⟩

/-- Whether an agent that found `numWriters` unlinks the name. -/
def Closer.unlinks (a : Closer) (numWriters : UInt32) : Bool :=
  decide (numWriters = 0) && (!a.isWriter || decide (a.wrapper.numReaders = 0))

structure Closing where
  readersAndWriteOffset : UInt64
  numWriters : UInt32
  agents : List Closer
  unlinked : Bool
deriving DecidableEq, Repr

/-- A queue to which exactly these agents are attached. -/
def Closing.init (isWriter : List Bool) (writeOffset : UInt64) : Closing where
  readersAndWriteOffset := pack (UInt64.ofNat (isWriter.count false)) writeOffset
  numWriters := UInt32.ofNat (isWriter.count true)
  agents := isWriter.map Closer.start
  unlinked := false

namespace Closing

def loadWord (s : Closing) (i : Nat) (a : Closer) : Closing :=
  { s with agents := s.agents.set i { a with
      wrapper := unwrap s.readersAndWriteOffset
      pc := .leaving } }

/-- `modify_readers(false)` of a reader, `num_writers.fetch_sub(1)` of a writer. -/
def leave (s : Closing) (i : Nat) (a : Closer) : Closing :=
  if a.isWriter then
    { s with
      numWriters := s.numWriters - 1
      agents := s.agents.set i { a with pc := .loadingNumWriters } }
  else
    let result := (unwrap s.readersAndWriteOffset).returnSubReader
    { s with
      readersAndWriteOffset := result.2
      agents := s.agents.set i { a with wrapper := result.1, pc := .loadingNumWriters } }

def loadNumWriters (s : Closing) (i : Nat) (a : Closer) : Closing :=
  { s with agents := s.agents.set i { a with pc := .deciding s.numWriters } }

def decideUnlink (s : Closing) (i : Nat) (a : Closer) (numWriters : UInt32) : Closing :=
  { s with
    agents := s.agents.set i { a with pc := .closed }
    unlinked := s.unlinked || a.unlinks numWriters }

/-- The next step of agent `i`. -/
def step (s : Closing) (i : Nat) : Option Closing :=
  s.agents[i]?.bind fun a => match a.pc with
    | .loadingWord => some (s.loadWord i a)
    | .leaving => some (s.leave i a)
    | .loadingNumWriters => some (s.loadNumWriters i a)
    | .deciding numWriters => some (s.decideUnlink i a numWriters)
    | .closed => none

end Closing

/-- The agent is a writer that `num_writers` still counts. -/
def Closer.counted (a : Closer) : Bool :=
  a.isWriter && (decide (a.pc = .loadingWord) || decide (a.pc = .leaving))

/-- The agent will unlink the name if it finds no writers, and has not looked
yet. -/
def Closer.WillUnlink (a : Closer) : Prop :=
  (a.isWriter = false ∧ (a.pc = .loadingWord ∨ a.pc = .leaving ∨ a.pc = .loadingNumWriters)) ∨
    (a.isWriter = true ∧ (a.pc = .leaving ∨ a.pc = .loadingNumWriters) ∧ a.wrapper.numReaders = 0)

instance (a : Closer) : Decidable a.WillUnlink := by
  unfold Closer.WillUnlink; infer_instance

/-- When the last writer takes itself out, somebody is left to unlink. -/
def LeavesUnlinker (s : Closing) (i : Nat) : Prop :=
  ∀ a ∈ s.agents[i]?, a.isWriter = true → a.pc = .leaving → s.numWriters = 1 →
    ∃ b ∈ s.agents, b.WillUnlink

instance (s : Closing) (i : Nat) : Decidable (LeavesUnlinker s i) := by
  unfold LeavesUnlinker; infer_instance

section

variable {s t : Closing} {i : Nat} {a b : Closer} {roles : List Bool} {writeOffset : UInt64}

/-- The one agent a step moves. -/
inductive Closing.Stepped (s : Closing) (i : Nat) : Closing → Prop where
  | loadedWord {a : Closer} (ha : s.agents[i]? = some a) (hpc : a.pc = .loadingWord) :
      Stepped s i (s.loadWord i a)
  | left {a : Closer} (ha : s.agents[i]? = some a) (hpc : a.pc = .leaving) :
      Stepped s i (s.leave i a)
  | loadedNumWriters {a : Closer} (ha : s.agents[i]? = some a) (hpc : a.pc = .loadingNumWriters) :
      Stepped s i (s.loadNumWriters i a)
  | decided {a : Closer} {numWriters : UInt32} (ha : s.agents[i]? = some a)
      (hpc : a.pc = .deciding numWriters) : Stepped s i (s.decideUnlink i a numWriters)

theorem Closing.Stepped.of_step (hstep : s.step i = some t) : s.Stepped i t := by
  obtain ⟨a, ha, hstep⟩ := Option.bind_eq_some_iff.mp hstep
  cases hpc : a.pc <;> simp only [hpc, reduceCtorEq] at hstep
  all_goals cases hstep
  · exact .loadedWord ha hpc
  · exact .left ha hpc
  · exact .loadedNumWriters ha hpc
  · exact .decided ha hpc

/-! ### Who is left to unlink -/

/-- Somebody unlinked, is about to, or will when it finds no writers. -/
def Closing.Unlinking (s : Closing) : Prop :=
  s.unlinked = true ∨ ∃ a ∈ s.agents, a.WillUnlink ∨ ∃ n, a.pc = .deciding n ∧ a.unlinks n = true

/-- `num_writers` counts the writers that have not left, and once there are none
somebody is left to unlink. -/
structure Closing.Inv (s : Closing) : Prop where
  count : s.numWriters = UInt32.ofNat (s.agents.countP Closer.counted)
  unlinking : s.agents.countP Closer.counted = 0 → s.Unlinking

theorem Closing.Inv.init (hroles : roles ≠ []) : (Closing.init roles writeOffset).Inv := by
  have hcount : (Closing.init roles writeOffset).agents.countP Closer.counted =
      roles.count true := by
    rw [Closing.init, List.countP_map, List.count]
    refine List.countP_congr ?_
    intro w _
    cases w <;> decide
  constructor
  · rw [hcount]
    rfl
  · intro hzero
    rw [hcount, List.count_eq_zero] at hzero
    -- without writers every agent is a reader
    obtain ⟨w, hw⟩ := List.exists_mem_of_ne_nil _ hroles
    have hreader : w = false := by
      cases w with
      | false => rfl
      | true => exact absurd hw hzero
    refine Or.inr ⟨.start w, List.mem_map_of_mem hw, Or.inl (Or.inl ⟨hreader, Or.inl rfl⟩)⟩

/-- Who was left to unlink before a step is so after it, if the agent that moved
is. -/
theorem Closing.Unlinking.set (h : s.Unlinking) {a' : Closer} (ha : s.agents[i]? = some a)
    (hagents : t.agents = s.agents.set i a') (hunlinked : s.unlinked = true → t.unlinked = true)
    (hkeeps : (a.WillUnlink ∨ ∃ n, a.pc = .deciding n ∧ a.unlinks n = true) → t.unlinked = true ∨
      a'.WillUnlink ∨ ∃ n, a'.pc = .deciding n ∧ a'.unlinks n = true) : t.Unlinking := by
  rcases h with hdone | ⟨b, hb, hwill⟩
  · exact Or.inl (hunlinked hdone)
  · by_cases hba : b = a
    · rw [hba] at hwill
      rcases hkeeps hwill with hdone | hwill'
      · exact Or.inl hdone
      · refine Or.inr ⟨a', ?_, hwill'⟩
        rw [hagents]
        exact List.mem_set (lt_of_getElem? ha) _
    · refine Or.inr ⟨b, ?_, hwill⟩
      rw [hagents]
      exact mem_set_of_ne ha hb hba

theorem UInt32.ofNat_succ_sub_one (n : Nat) : UInt32.ofNat (n + 1) - 1 = UInt32.ofNat n := by
  apply UInt32.toNat_inj.mp
  rw [UInt32.toNat_sub, UInt32.toNat_ofNat', UInt32.toNat_ofNat']
  change (2 ^ 32 - 1 + (n + 1) % 2 ^ 32) % 2 ^ 32 = n % 2 ^ 32
  omega

/-- A step after which the agent is as counted as before. -/
theorem Closing.Inv.same (h : s.Inv) {a' : Closer} (ha : s.agents[i]? = some a)
    (hagents : t.agents = s.agents.set i a') (hcounted : a'.counted = a.counted)
    (hwriters : t.numWriters = s.numWriters)
    (hunlinking : s.agents.countP Closer.counted = 0 → s.Unlinking → t.Unlinking) : t.Inv := by
  have hcount : t.agents.countP Closer.counted = s.agents.countP Closer.counted := by
    rw [hagents]
    exact countP_set_of_eq _ ha hcounted
  constructor
  · rw [hwriters, hcount]
    exact h.count
  · intro hzero
    rw [hcount] at hzero
    exact hunlinking hzero (h.unlinking hzero)

theorem Closing.Inv.loadWord (h : s.Inv) (ha : s.agents[i]? = some a)
    (hpc : a.pc = .loadingWord) : (s.loadWord i a).Inv := by
  refine h.same ha rfl (by simp [Closer.counted, hpc]) rfl ?_
  intro _ hunlinking
  refine hunlinking.set ha rfl id ?_
  rintro (hwill | ⟨n, hn, -⟩)
  · rcases hwill with ⟨hreader, -⟩ | ⟨-, hpc', -⟩
    · exact Or.inr (Or.inl (Or.inl ⟨hreader, Or.inr (Or.inl rfl)⟩))
    · simp [hpc] at hpc'
  · rw [hpc] at hn
    cases hn

theorem Closing.Inv.leave (h : s.Inv) (ha : s.agents[i]? = some a) (hpc : a.pc = .leaving)
    (hok : LeavesUnlinker s i) : (s.leave i a).Inv := by
  unfold Closing.leave
  by_cases hw : a.isWriter = true
  · rw [if_pos hw]
    have hcount := countP_set (y := { a with pc := .loadingNumWriters }) Closer.counted ha
    have hcounted : a.counted = true := by simp [Closer.counted, hw, hpc]
    have hgone : ({ a with pc := .loadingNumWriters } : Closer).counted = false := by
      simp [Closer.counted]
    rw [hcounted, hgone] at hcount
    simp only [if_true, Bool.false_eq_true, if_false] at hcount
    constructor
    · change s.numWriters - 1 = _
      rw [h.count, ← Nat.add_zero (s.agents.countP Closer.counted), ← hcount]
      exact UInt32.ofNat_succ_sub_one _
    · intro hzero
      -- the writer was the last one that is counted
      have hone : s.numWriters = 1 := by
        rw [h.count, ← Nat.add_zero (s.agents.countP Closer.counted), ← hcount]
        exact congrArg (fun n => UInt32.ofNat (n + 1)) hzero
      obtain ⟨b, hb, hwill⟩ := hok a ha hw hpc hone
      have hunlinking : s.Unlinking := Or.inr ⟨b, hb, Or.inl hwill⟩
      refine hunlinking.set ha rfl id ?_
      rintro (hwill | ⟨n, hn, -⟩)
      · rcases hwill with ⟨hreader, -⟩ | ⟨-, -, hnone⟩
        · rw [hw] at hreader
          cases hreader
        · exact Or.inr (Or.inl (Or.inr ⟨hw, Or.inr rfl, hnone⟩))
      · rw [hpc] at hn
        cases hn
  · rw [if_neg hw]
    have hreader : a.isWriter = false := Bool.eq_false_of_not_eq_true hw
    refine h.same ha rfl (by simp [Closer.counted, hreader]) rfl ?_
    intro _ hunlinking
    exact hunlinking.set ha rfl id fun _ =>
      Or.inr (Or.inl (Or.inl ⟨hreader, Or.inr (Or.inr rfl)⟩))

theorem Closing.Inv.loadNumWriters (h : s.Inv) (ha : s.agents[i]? = some a)
    (hpc : a.pc = .loadingNumWriters) : (s.loadNumWriters i a).Inv := by
  refine h.same ha rfl (by simp [Closer.counted, hpc]) rfl ?_
  intro hzero hunlinking
  have hnone : s.numWriters = 0 := by
    rw [h.count, hzero]
    rfl
  refine hunlinking.set ha rfl id ?_
  rintro (hwill | ⟨n, hn, -⟩)
  · refine Or.inr (Or.inr ⟨s.numWriters, rfl, ?_⟩)
    rcases hwill with ⟨hreader, -⟩ | ⟨-, -, hreaders⟩
    · simp [Closer.unlinks, hnone, hreader]
    · simp [Closer.unlinks, hnone, hreaders]
  · rw [hpc] at hn
    cases hn

theorem Closing.Inv.decideUnlink (h : s.Inv) {n : UInt32} (ha : s.agents[i]? = some a)
    (hpc : a.pc = .deciding n) : (s.decideUnlink i a n).Inv := by
  refine h.same ha rfl (by simp [Closer.counted, hpc]) rfl ?_
  intro _ hunlinking
  refine hunlinking.set ha rfl ?_ ?_
  · intro hdone
    simp [Closing.decideUnlink, hdone]
  · rintro (hwill | ⟨m, hm, hunlinks⟩)
    · simp [Closer.WillUnlink, hpc] at hwill
    · rw [hpc] at hm
      cases hm
      simp [Closing.decideUnlink, hunlinks]

theorem Closing.Inv.of_reach (hroles : roles ≠ [])
    (hreach : Reach Closing.step LeavesUnlinker (.init roles writeOffset) s) : s.Inv := by
  refine hreach.invariant (.init hroles) ?_
  intro s i t h hok hstep
  cases Closing.Stepped.of_step hstep with
  | loadedWord ha hpc => exact h.loadWord ha hpc
  | left ha hpc => exact h.leave ha hpc hok
  | loadedNumWriters ha hpc => exact h.loadNumWriters ha hpc
  | decided ha hpc => exact h.decideUnlink ha hpc

/-- Where the last writer always leaves somebody behind who will unlink, the
name is unlinked when all agents are done. -/
theorem close_unlinks (hroles : roles ≠ [])
    (hreach : Reach Closing.step LeavesUnlinker (.init roles writeOffset) s)
    (hclosed : ∀ a ∈ s.agents, a.pc = .closed) : s.unlinked = true := by
  have h := Closing.Inv.of_reach hroles hreach
  have hzero : s.agents.countP Closer.counted = 0 := by
    rw [List.countP_eq_zero]
    intro a ha
    simp [Closer.counted, hclosed a ha]
  rcases h.unlinking hzero with hdone | ⟨a, ha, hwill | ⟨n, hn, -⟩⟩
  · exact hdone
  · simp [Closer.WillUnlink, hclosed a ha] at hwill
  · rw [hclosed a ha] at hn
    cases hn

end

/-- The reader is gone before the writer starts to close. -/
theorem close_unlinks_one_after_the_other : ∃ s : Closing,
    (∀ a ∈ s.agents, a.pc = .closed) ∧ s.unlinked = true := by
  let labels : List Nat := List.replicate 4 1 ++ List.replicate 4 0
  have hexec : (exec Closing.step LeavesUnlinker (.init [true, false] 0) labels).any
      (fun s => decide (∀ a ∈ s.agents, a.pc = .closed)) = true := by
    decide +kernel
  obtain ⟨s, hrun, hs⟩ := exists_run_of_exec hexec
  have hclosed := of_decide_eq_true hs
  exact ⟨s, hclosed, close_unlinks (by decide) ⟨labels, hrun⟩ hclosed⟩

/-- The writer loads the word while the reader is joined, and the reader loads
`num_writers` while the writer is counted: nobody unlinks. -/
theorem close_leaves_file : ∃ s,
    Reach Closing.step (fun _ _ => True) (.init [true, false] 0) s ∧
      (∀ a ∈ s.agents, a.pc = .closed) ∧ s.unlinked = false := by
  let labels : List Nat := [0, 1, 1, 1, 0, 0, 0, 1]
  have hexec : (exec Closing.step (fun _ _ => True) (.init [true, false] 0) labels).any
      (fun s => decide ((∀ a ∈ s.agents, a.pc = .closed) ∧ s.unlinked = false)) = true := by
    decide +kernel
  obtain ⟨s, hrun, hs⟩ := exists_run_of_exec hexec
  obtain ⟨hclosed, hunlinked⟩ := of_decide_eq_true hs
  exact ⟨s, ⟨labels, hrun⟩, hclosed, hunlinked⟩

end MockExchange
