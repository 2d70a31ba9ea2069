import MockExchange.Lib.Transition
import Mathlib.Logic.Function.Basic
import Mathlib.Data.List.Pairwise

/-!
# Reader wrappers

A reader wrapper stands for a polled block until its destruction. The
destructor calls `release_buffer` unless `released` is set. `release` calls it
whatever `released` says, `mark_as_read` only sets `released`, and the move
constructor starts with `released` unset, whatever the wrapper it empties had.
-/

namespace MockExchange

open Transition

/-- `span` is the header of the block, and nothing in a wrapper that was moved
from. -/
structure ReaderWrapper where
  span : Option Nat
  released : Bool
deriving DecidableEq, Repr

namespace ReaderWrapper

def new (hdr : Nat) : ReaderWrapper where
  span := some hdr
  released := false

/-- The wrapper that the move constructor builds. -/
def moveFrom (other : ReaderWrapper) : ReaderWrapper where
  span := other.span
  released := false

/-- What the move constructor leaves in `other`. -/
def movedFrom : ReaderWrapper where
  span := none
  released := true

def markAsRead (w : ReaderWrapper) : ReaderWrapper := { w with released := true }

section

variable {σ : Type*} (releaseBuffer : Option Nat → σ → σ)

/-- `release`, in a program whose state `release_buffer` changes as given. -/
def release (w : ReaderWrapper) (s : σ) : ReaderWrapper × σ :=
  ({ w with released := true }, releaseBuffer w.span s)

/-- The destructor. -/
def destruct (w : ReaderWrapper) (s : σ) : σ :=
  if w.released then s else (w.release releaseBuffer s).2

end

end ReaderWrapper

/-! ### Wrappers of one block -/

inductive WrapperEvent where
  | releaseBuffer (hdr : Option Nat)
  | markAsRead (hdr : Option Nat)
deriving DecidableEq, Repr

/-- The wrappers there are, the index of the next one to be built, and what was
called so far. -/
structure Wrappers where
  wrapper : Nat → Option ReaderWrapper
  next : Nat
  events : List WrapperEvent

inductive WrapperOp where
  | move (i : Nat)
  | release (i : Nat)
  | markAsRead (i : Nat)
  | destroy (i : Nat)
deriving DecidableEq, Repr

namespace Wrappers

/-- `poll_buffer` returned a wrapper of the block at `hdr`. -/
def polled (hdr : Nat) : Wrappers where
  wrapper := fun i => if i = 0 then some (.new hdr) else none
  next := 1
  events := []

/-- A wrapper that still has its block. -/
def holding (ws : Wrappers) (i : Nat) : Option ReaderWrapper :=
  (ws.wrapper i).filter fun w => w.span.isSome

def set (ws : Wrappers) (i : Nat) (w : Option ReaderWrapper) : Wrappers :=
  { ws with wrapper := Function.update ws.wrapper i w }

@[simp] theorem set_wrapper_self (ws : Wrappers) (i : Nat) (w : Option ReaderWrapper) :
    (ws.set i w).wrapper i = w := by
  simp only [set, Function.update_self]

theorem set_wrapper_of_ne (ws : Wrappers) {i j : Nat} (w : Option ReaderWrapper) (h : j ≠ i) :
    (ws.set i w).wrapper j = ws.wrapper j := by
  simp only [set, Function.update_of_ne h]

end Wrappers

/-- A call of `release_buffer` is recorded. -/
def recordRelease (hdr : Option Nat) (events : List WrapperEvent) : List WrapperEvent :=
  events ++ [.releaseBuffer hdr]

/-- One operation. A program moves, releases and marks the wrapper that has the
block, and destroys any. -/
def wrapperStep (ws : Wrappers) : WrapperOp → Option Wrappers
  | .move i => (ws.holding i).map fun w =>
    { (ws.set i (some .movedFrom)).set ws.next (some w.moveFrom) with next := ws.next + 1 }
  | .release i => (ws.holding i).map fun w =>
    let (w, events) := w.release recordRelease ws.events
    { ws.set i (some w) with events := events }
  | .markAsRead i => (ws.holding i).map fun w =>
    { ws.set i (some w.markAsRead) with events := ws.events ++ [.markAsRead w.span] }
  | .destroy i => (ws.wrapper i).map fun w =>
    { ws.set i none with events := w.destruct recordRelease ws.events }

/-- The block is released at most once, never after it was marked, and once if
it never was. -/
structure ReleasedOnce (hdr : Nat) (events : List WrapperEvent) : Prop where
  atMostOnce : events.count (.releaseBuffer (some hdr)) ≤ 1
  notAfterMark : events.Pairwise fun a b =>
    a = .markAsRead (some hdr) → b ≠ .releaseBuffer (some hdr)
  once : .markAsRead (some hdr) ∉ events → events.count (.releaseBuffer (some hdr)) = 1

/-- The calls a program makes on the wrapper that has the block. -/
inductive WrapperCall where
  | move
  | release
  | markAsRead
deriving DecidableEq, Repr

def WrapperOp.call : WrapperOp → Option WrapperCall
  | .move _ => some .move
  | .release _ => some .release
  | .markAsRead _ => some .markAsRead
  | .destroy _ => none

/-- Only moves come before a `release`, and a move is last only where all calls
are moves. -/
def CallsFit (calls : List WrapperCall) : Prop :=
  (calls.Pairwise fun a b => b = .release → a = .move) ∧
    (calls.getLast? = some .move → ∀ c ∈ calls, c = .move)

instance (calls : List WrapperCall) : Decidable (CallsFit calls) := by
  unfold CallsFit; infer_instance

/-! ### What the calls lead to -/

section

variable {hdr : Nat} {calls : List WrapperCall} {c : WrapperCall} {ops : List WrapperOp}
  {ws ws' : Wrappers}

def WrapperCall.events (hdr : Nat) : WrapperCall → List WrapperEvent
  | .move => []
  | .release => [.releaseBuffer (some hdr)]
  | .markAsRead => [.markAsRead (some hdr)]

/-- `released` is unset after these calls. -/
def pending (calls : List WrapperCall) : Bool :=
  match calls.getLast? with
  | none | some .move => true
  | some .release | some .markAsRead => false

@[simp] theorem pending_nil : pending [] = true := rfl

@[simp] theorem pending_concat : pending (calls ++ [c]) = decide (c = .move) := by
  unfold pending
  rw [List.getLast?_concat]
  cases c <;> rfl

/-- The events of the calls and of the destructor of the last holder. -/
def finalEvents (hdr : Nat) (calls : List WrapperCall) : List WrapperEvent :=
  calls.flatMap (WrapperCall.events hdr) ++
    if pending calls then [.releaseBuffer (some hdr)] else []

theorem mem_events_release (hdr : Nat) (calls : List WrapperCall) :
    .releaseBuffer (some hdr) ∈ calls.flatMap (WrapperCall.events hdr) ↔ .release ∈ calls := by
  rw [List.mem_flatMap]
  constructor
  · rintro ⟨c, hc, hevent⟩
    cases c with
    | release => exact hc
    | _ => simp [WrapperCall.events] at hevent
  · intro hc
    exact ⟨.release, hc, List.mem_singleton_self _⟩

theorem mem_events_markAsRead (hdr : Nat) (calls : List WrapperCall) :
    .markAsRead (some hdr) ∈ calls.flatMap (WrapperCall.events hdr) ↔ .markAsRead ∈ calls := by
  rw [List.mem_flatMap]
  constructor
  · rintro ⟨c, hc, hevent⟩
    cases c with
    | markAsRead => exact hc
    | _ => simp [WrapperCall.events] at hevent
  · intro hc
    exact ⟨.markAsRead, hc, List.mem_singleton_self _⟩

theorem forall_move_iff :
    (∀ c ∈ calls, c = .move) ↔ WrapperCall.release ∉ calls ∧ WrapperCall.markAsRead ∉ calls := by
  constructor
  · intro hall
    constructor
    · intro hmem
      cases hall _ hmem
    · intro hmem
      cases hall _ hmem
  · rintro ⟨hrelease, hmark⟩ c hc
    cases c with
    | move => rfl
    | release => exact absurd hc hrelease
    | markAsRead => exact absurd hc hmark

/-- A release at the end is the only one, and no mark comes before it, if and
only if all calls before are moves. -/
theorem releasedOnce_concat_release :
    ReleasedOnce hdr (calls.flatMap (WrapperCall.events hdr) ++ [.releaseBuffer (some hdr)]) ↔
      ∀ c ∈ calls, c = .move := by
  rw [forall_move_iff]
  constructor
  · intro h
    constructor
    · intro hmem
      have hone := h.atMostOnce
      have hpos := List.count_pos_iff.mpr ((mem_events_release hdr calls).mpr hmem)
      rw [List.count_append, List.count_singleton_self] at hone
      omega
    · intro hmem
      have hpairwise := (List.pairwise_append.mp h.notAfterMark).2.2
      exact hpairwise _ ((mem_events_markAsRead _ _).mpr hmem) _ (List.mem_singleton_self _) rfl rfl
  · intro h
    have hnone : calls.flatMap (WrapperCall.events hdr) = [] := by
      rw [List.flatMap_eq_nil_iff]
      intro c hc
      rw [forall_move_iff.mpr h c hc]
      rfl
    rw [hnone, List.nil_append]
    exact ⟨by simp, by simp, by simp⟩

/-- A `release` is the first call that is no move. -/
theorem pairwise_calls_iff (hdr : Nat) :
    (calls.Pairwise fun a b => b = .release → a = .move) ↔
      (calls.flatMap (WrapperCall.events hdr)).count (.releaseBuffer (some hdr)) ≤ 1 ∧
        (calls.flatMap (WrapperCall.events hdr)).Pairwise fun a b =>
          a = .markAsRead (some hdr) → b ≠ .releaseBuffer (some hdr) := by
  induction calls with
  | nil => simp
  | cons c calls ih =>
    rw [List.pairwise_cons, ih, List.flatMap_cons]
    cases c with
    | move => simp [WrapperCall.events]
    | release =>
      have hnone : (∀ b ∈ calls, b = .release → WrapperCall.release = .move) ↔
          WrapperCall.release ∉ calls := by
        constructor
        · intro hall hmem
          cases hall _ hmem rfl
        · rintro hnot b hb rfl
          exact absurd hb hnot
      rw [hnone, ← mem_events_release hdr, ← List.count_eq_zero]
      simp only [WrapperCall.events, List.singleton_append, List.count_cons_self,
        List.pairwise_cons, reduceCtorEq, false_implies, implies_true, true_and]
      constructor
      · rintro ⟨hzero, -, hpairwise⟩
        exact ⟨by omega, hpairwise⟩
      · rintro ⟨hone, hpairwise⟩
        exact ⟨by omega, by omega, hpairwise⟩
    | markAsRead =>
      have hnone : (∀ b ∈ calls, b = .release → WrapperCall.markAsRead = .move) ↔
          WrapperCall.release ∉ calls := by
        constructor
        · intro hall hmem
          cases hall _ hmem rfl
        · rintro hnot b hb rfl
          exact absurd hb hnot
      rw [hnone, ← mem_events_release hdr]
      simp only [WrapperCall.events, List.singleton_append, List.pairwise_cons, true_implies]
      rw [List.count_cons_of_ne (by simp)]
      constructor
      · rintro ⟨hzero, hone, hpairwise⟩
        refine ⟨hone, ?_, hpairwise⟩
        rintro b hb rfl
        exact hzero hb
      · rintro ⟨hone, hnot, hpairwise⟩
        exact ⟨fun hmem => hnot _ hmem rfl, hone, hpairwise⟩

/-- The events of a complete run are as they should be if and only if the calls
fit. -/
theorem releasedOnce_finalEvents : ReleasedOnce hdr (finalEvents hdr calls) ↔ CallsFit calls := by
  unfold finalEvents CallsFit
  rcases List.eq_nil_or_concat calls with rfl | ⟨init, last, rfl⟩
  · exact iff_of_true ⟨by simp, by simp, by simp⟩ ⟨by simp, by simp⟩
  · simp only [List.concat_eq_append, pending_concat, List.getLast?_concat, Option.some.injEq]
    cases last with
    | move =>
      -- the destructor of the last holder releases
      rw [decide_eq_true rfl, if_pos rfl, releasedOnce_concat_release]
      constructor
      · intro hall
        refine ⟨?_, fun _ => hall⟩
        exact List.pairwise_of_forall_mem_list fun a ha _ _ _ => hall a ha
      · rintro ⟨-, hall⟩
        exact hall rfl
    | release =>
      rw [decide_eq_false (by simp), if_neg (by simp), List.append_nil, List.flatMap_append,
        List.flatMap_singleton, List.pairwise_append]
      refine releasedOnce_concat_release.trans ?_
      constructor
      · intro hall
        refine ⟨⟨?_, by simp, ?_⟩, by simp⟩
        · exact List.pairwise_of_forall_mem_list fun a ha _ _ _ => hall a ha
        · exact fun a ha b _ _ => hall a ha
      · rintro ⟨⟨-, -, hbefore⟩, -⟩ c hc
        exact hbefore c hc .release (List.mem_singleton_self _) rfl
    | markAsRead =>
      rw [decide_eq_false (by simp), if_neg (by simp), List.append_nil]
      rw [pairwise_calls_iff hdr]
      constructor
      · intro h
        exact ⟨⟨h.atMostOnce, h.notAfterMark⟩, by simp⟩
      · rintro ⟨⟨hone, hpairwise⟩, -⟩
        refine ⟨hone, hpairwise, ?_⟩
        intro hnot
        exact absurd ((mem_events_markAsRead _ _).mpr (List.mem_append_right _
          (List.mem_singleton_self _))) hnot

/-! ### Runs -/

/-- Either one wrapper has the block, or the wrapper that had it was destroyed;
all others were moved from. -/
structure Owned (hdr : Nat) (calls : List WrapperCall) (ws : Wrappers) (i : Nat) : Prop where
  unbuilt : ∀ j, ws.next ≤ j → ws.wrapper j = none
  others : ∀ j, j ≠ i → ∀ w ∈ ws.wrapper j, w = .movedFrom
  owner : ws.wrapper i = some ⟨some hdr, !pending calls⟩ ∧
      ws.events = calls.flatMap (WrapperCall.events hdr) ∨
    ws.wrapper i = none ∧ ws.events = finalEvents hdr calls

theorem Owned.polled : Owned hdr [] (.polled hdr) 0 where
  unbuilt := fun _ hj => if_neg (Nat.ne_of_gt hj)
  others := by
    intro j hj w hw
    rw [show (Wrappers.polled hdr).wrapper j = none from if_neg hj] at hw
    cases hw
  owner := Or.inl ⟨rfl, rfl⟩

/-- Only the owner has the block. -/
theorem Owned.of_holding {i j : Nat} {w : ReaderWrapper} (h : Owned hdr calls ws i)
    (hw : ws.holding j = some w) : j = i ∧ w = ⟨some hdr, !pending calls⟩ ∧
      ws.events = calls.flatMap (WrapperCall.events hdr) := by
  obtain ⟨hwrapper, hspan⟩ := Option.filter_eq_some_iff.mp hw
  have hj : j = i := by
    by_contra hne
    rw [h.others j hne w hwrapper] at hspan
    cases hspan
  subst hj
  rcases h.owner with ⟨howner, hevents⟩ | ⟨hnone, -⟩
  · rw [howner] at hwrapper
    exact ⟨rfl, (Option.some.inj hwrapper).symm, hevents⟩
  · rw [hnone] at hwrapper
    cases hwrapper

theorem Owned.lt_next {i : Nat} (h : Owned hdr calls ws i) {j : Nat} {w : ReaderWrapper}
    (hw : ws.wrapper j = some w) : j < ws.next := by
  by_contra hle
  rw [h.unbuilt j (Nat.le_of_not_lt hle)] at hw
  cases hw

/-- A call of `release` or `mark_as_read` on the owner. -/
theorem Owned.called {i : Nat} (h : Owned hdr calls ws i) {w : ReaderWrapper}
    (hw : ws.holding i = some w) (hc : c ≠ .move) :
    Owned hdr (calls ++ [c])
      { ws.set i (some ⟨some hdr, true⟩) with events := ws.events ++ c.events hdr } i := by
  obtain ⟨hwrapper, -⟩ := Option.filter_eq_some_iff.mp hw
  have hlt := h.lt_next hwrapper
  refine ⟨?_, ?_, Or.inl ⟨?_, ?_⟩⟩
  · intro j hj
    have hj' : ws.next ≤ j := hj
    exact (ws.set_wrapper_of_ne _ (by omega)).trans (h.unbuilt j hj')
  · intro j hj w hw
    exact h.others j hj w (ws.set_wrapper_of_ne _ hj ▸ hw)
  · rw [pending_concat, decide_eq_false hc]
    exact ws.set_wrapper_self i _
  · rw [(h.of_holding hw).2.2, List.flatMap_append, List.flatMap_singleton]

theorem Owned.step {i : Nat} {op : WrapperOp} (h : Owned hdr calls ws i)
    (hs : wrapperStep ws op = some ws') :
    ∃ i', Owned hdr (calls ++ op.call.toList) ws' i' := by
  cases op with
  | move j =>
    obtain ⟨w, hw, rfl⟩ := Option.map_eq_some_iff.mp hs
    obtain ⟨rfl, rfl, hevents⟩ := h.of_holding hw
    have hlt := h.lt_next (Option.filter_eq_some_iff.mp hw).1
    refine ⟨ws.next, ?_, ?_, Or.inl ⟨?_, ?_⟩⟩
    · intro k hk
      have hk' : ws.next + 1 ≤ k := hk
      have hne : k ≠ j := by omega
      refine (Wrappers.set_wrapper_of_ne _ _ (by omega)).trans ?_
      exact (Wrappers.set_wrapper_of_ne _ _ hne).trans (h.unbuilt k (by omega))
    · intro k hk w hw
      have hw' := Wrappers.set_wrapper_of_ne (ws.set j (some .movedFrom)) _ hk ▸ hw
      by_cases hkj : k = j
      · subst hkj
        rw [Wrappers.set_wrapper_self] at hw'
        exact (Option.some.inj hw').symm
      · exact h.others k hkj w (Wrappers.set_wrapper_of_ne ws _ hkj ▸ hw')
    · rw [WrapperOp.call, Option.toList_some, pending_concat, decide_eq_true rfl]
      exact Wrappers.set_wrapper_self _ _ _
    · rw [WrapperOp.call, Option.toList_some, List.flatMap_append]
      exact hevents.trans (List.append_nil _).symm
  | release j =>
    obtain ⟨w, hw, rfl⟩ := Option.map_eq_some_iff.mp hs
    obtain ⟨rfl, rfl, -⟩ := h.of_holding hw
    exact ⟨j, h.called hw (by simp)⟩
  | markAsRead j =>
    obtain ⟨w, hw, rfl⟩ := Option.map_eq_some_iff.mp hs
    obtain ⟨rfl, rfl, -⟩ := h.of_holding hw
    exact ⟨j, h.called hw (by simp)⟩
  | destroy j =>
    obtain ⟨w, hw, rfl⟩ := Option.map_eq_some_iff.mp hs
    rw [WrapperOp.call, Option.toList_none, List.append_nil]
    have hwrapper : ∀ k, k ≠ j → (ws.set j none).wrapper k = ws.wrapper k :=
      fun k hk => ws.set_wrapper_of_ne none hk
    have hgone : (ws.set j none).wrapper j = none := ws.set_wrapper_self j none
    refine ⟨i, ?_, ?_, ?_⟩
    · intro k hk
      by_cases hkj : k = j
      · exact hkj ▸ hgone
      · exact (hwrapper k hkj).trans (h.unbuilt k hk)
    · intro k hk w hw
      by_cases hkj : k = j
      · subst hkj
        rw [hgone] at hw
        cases hw
      · exact h.others k hk w (hwrapper k hkj ▸ hw)
    · by_cases hij : i = j
      · subst hij
        rcases h.owner with ⟨howner, hevents⟩ | ⟨hnone, -⟩
        · rw [howner] at hw
          cases hw
          refine Or.inr ⟨hgone, ?_⟩
          simp only [ReaderWrapper.destruct, ReaderWrapper.release, recordRelease, finalEvents,
            hevents]
          cases pending calls <;> simp
        · rw [hnone] at hw
          cases hw
      · -- a wrapper that was moved from does nothing
        rw [h.others j (Ne.symm hij) w hw]
        refine h.owner.imp ?_ ?_
        · exact fun ⟨howner, hevents⟩ => ⟨(hwrapper i hij).trans howner, hevents⟩
        · exact fun ⟨hnone, hevents⟩ => ⟨(hwrapper i hij).trans hnone, hevents⟩

theorem Owned.of_run (hrun : Run wrapperStep (fun _ _ => True) (.polled hdr) ops ws) :
    ∃ i, Owned hdr (ops.filterMap WrapperOp.call) ws i := by
  induction hrun with
  | nil => exact ⟨0, .polled⟩
  | snoc _ _ hs ih =>
    rename_i ops ws ws' op _
    obtain ⟨i, h⟩ := ih
    obtain ⟨i', h'⟩ := h.step hs
    refine ⟨i', ?_⟩
    rw [List.filterMap_append]
    cases op <;> exact h'

/-- A polled block is released as it should be if and only if the calls on its
wrappers fit. -/
theorem released_once_iff (hrun : Run wrapperStep (fun _ _ => True) (.polled hdr) ops ws)
    (hdestroyed : ∀ i, ws.wrapper i = none) :
    ReleasedOnce hdr ws.events ↔ CallsFit (ops.filterMap WrapperOp.call) := by
  obtain ⟨i, h⟩ := Owned.of_run hrun
  rcases h.owner with ⟨howner, -⟩ | ⟨-, hevents⟩
  · rw [hdestroyed i] at howner
    cases howner
  · rw [hevents]
    exact releasedOnce_finalEvents

end

/-- A wrapper that is moved and then released. -/
theorem released_once_moved : ∃ ws,
    Run wrapperStep (fun _ _ => True) (.polled 0)
      [.move 0, .release 1, .destroy 1, .destroy 0] ws ∧ ReleasedOnce 0 ws.events := by
  have hexec : ∃ ws, exec wrapperStep (fun _ _ => True) (.polled 0)
        [.move 0, .release 1, .destroy 1, .destroy 0] = some ws ∧
      ∀ i, ws.wrapper i = none := by
    refine ⟨_, rfl, ?_⟩
    intro i
    match i with
    | 0 => rfl
    | 1 => rfl
    | _ + 2 => rfl
  obtain ⟨ws, hrun, hnone⟩ := hexec
  exact ⟨ws, run_of_exec hrun, (released_once_iff (run_of_exec hrun) hnone).mpr (by decide)⟩

/-- A wrapper that is moved after `mark_as_read` releases the block. -/
theorem released_after_mark : ∃ ops ws,
    Run wrapperStep (fun _ _ => True) (.polled 0) ops ws ∧ (∀ i, ws.wrapper i = none) ∧
      ¬ ReleasedOnce 0 ws.events := by
  have hexec : ∃ ws, exec wrapperStep (fun _ _ => True) (.polled 0)
        [.markAsRead 0, .move 0, .destroy 1, .destroy 0] = some ws ∧
      (∀ i, ws.wrapper i = none) ∧
      ws.events = [.markAsRead (some 0), .releaseBuffer (some 0)] := by
    refine ⟨_, rfl, ?_, rfl⟩
    intro i
    match i with
    | 0 => rfl
    | 1 => rfl
    | _ + 2 => rfl
  obtain ⟨ws, hrun, hnone, hevents⟩ := hexec
  refine ⟨_, ws, run_of_exec hrun, hnone, ?_⟩
  intro h
  have hafter := h.notAfterMark
  rw [hevents, List.pairwise_pair] at hafter
  exact hafter rfl rfl

end MockExchange
