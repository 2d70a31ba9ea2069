import Mathlib.Data.Option.Basic
import Mathlib.Data.List.Basic

/-!
# Guarded runs of a labelled transition system

A system is a partial function `step : σ → α → Option σ`. A run is a list of
labels whose steps are all enabled and all meet a guard `ok`, which states what
the environment promises about a step in the state it is taken from. An
invariant is proved once per step and holds in the state every run ends in.
-/

namespace Transition

variable {σ α : Type*} (step : σ → α → Option σ) (ok : σ → α → Prop)

/-- `Run step ok s labels t`: from `s` the labels lead to `t`, one enabled and
guarded step each. -/
inductive Run (s : σ) : List α → σ → Prop where
  | nil : Run s [] s
  | snoc {labels : List α} {t u : σ} {a : α} :
      Run s labels t → ok t a → step t a = some u → Run s (labels ++ [a]) u

/-- The states a guarded run can end in. -/
def Reach (s t : σ) : Prop := ∃ labels, Run step ok s labels t

variable {step ok} {s t u : σ}

/-- **The invariant rule.** What holds at the start and is kept by every
guarded step holds after every run. -/
theorem Run.invariant {P : σ → Prop} (hstart : P s)
    (hstep : ∀ t a u, P t → ok t a → step t a = some u → P u)
    {labels : List α} (h : Run step ok s labels t) : P t := by
  induction h with
  | nil => exact hstart
  | snoc _ hok hs ih => exact hstep _ _ _ ih hok hs

theorem Reach.invariant {P : σ → Prop} (h : Reach step ok s t) (hstart : P s)
    (hstep : ∀ t a u, P t → ok t a → step t a = some u → P u) : P t := by
  obtain ⟨labels, hrun⟩ := h
  exact hrun.invariant hstart hstep

theorem Reach.refl (s : σ) : Reach step ok s s := ⟨[], .nil⟩

theorem Reach.next {a : α} (h : Reach step ok s t) (hok : ok t a)
    (hs : step t a = some u) : Reach step ok s u := by
  obtain ⟨labels, hrun⟩ := h
  exact ⟨labels ++ [a], hrun.snoc hok hs⟩

theorem Run.append {labels labels' : List α} (h : Run step ok s labels t)
    (h' : Run step ok t labels' u) : Run step ok s (labels ++ labels') u := by
  induction h' with
  | nil => simpa using h
  | snoc _ hok hs ih => simpa using ih.snoc hok hs

theorem Reach.trans (h : Reach step ok s t) (h' : Reach step ok t u) : Reach step ok s u := by
  obtain ⟨labels, hrun⟩ := h
  obtain ⟨labels', hrun'⟩ := h'
  exact ⟨labels ++ labels', hrun.append hrun'⟩

/-- **The termination rule.** A run is no longer than what its steps can use up. -/
theorem Run.length_le {μ : σ → Nat} (hstep : ∀ t a u, ok t a → step t a = some u → μ u < μ t)
    {labels : List α} (h : Run step ok s labels t) : labels.length + μ t ≤ μ s := by
  induction h with
  | nil => simp
  | snoc _ hok hs ih =>
    have hlt := hstep _ _ _ hok hs
    rw [List.length_append, List.length_singleton]
    omega

/-- A weaker guard admits at least the same runs. -/
theorem Run.mono {ok' : σ → α → Prop} (himp : ∀ t a, ok t a → ok' t a)
    {labels : List α} (h : Run step ok s labels t) : Run step ok' s labels t := by
  induction h with
  | nil => exact .nil
  | snoc _ hok hs ih => exact ih.snoc (himp _ _ hok) hs

theorem Reach.mono {ok' : σ → α → Prop} (himp : ∀ t a, ok t a → ok' t a)
    (h : Reach step ok s t) : Reach step ok' s t := by
  obtain ⟨labels, hrun⟩ := h
  exact ⟨labels, hrun.mono himp⟩

/-- **The simulation rule.** A system whose guarded steps are each matched by a
run of another reaches nothing that is not related to a state the other
reaches. -/
theorem Reach.simulation {τ β : Type*} {step' : τ → β → Option τ} {ok' : τ → β → Prop}
    {R : σ → τ → Prop} {s' : τ} (h : Reach step ok s t) (hstart : R s s')
    (hstep : ∀ t a u t', R t t' → ok t a → step t a = some u →
      ∃ u', Reach step' ok' t' u' ∧ R u u') : ∃ t', Reach step' ok' s' t' ∧ R t t' := by
  refine h.invariant (P := fun t => ∃ t', Reach step' ok' s' t' ∧ R t t')
    ⟨s', .refl s', hstart⟩ ?_
  rintro t a u ⟨t', hreach, hrel⟩ hok hs
  obtain ⟨u', hnext, hrel'⟩ := hstep t a u t' hrel hok hs
  exact ⟨u', hreach.trans hnext, hrel'⟩

/-- A view of the state that each step updates by its label alone is determined
by the labels. -/
theorem Run.view_eq {β : Type*} {P : σ → Prop} {view : σ → β} {update : β → α → β}
    (hstart : P s) (hstep : ∀ t a u, P t → ok t a → step t a = some u →
      P u ∧ view u = update (view t) a)
    {labels : List α} (h : Run step ok s labels t) :
    view t = labels.foldl update (view s) := by
  have hboth : P t ∧ view t = labels.foldl update (view s) := by
    induction h with
    | nil => exact ⟨hstart, rfl⟩
    | snoc _ hok hs ih =>
      obtain ⟨hkept, hview⟩ := hstep _ _ _ ih.1 hok hs
      refine ⟨hkept, ?_⟩
      rw [hview, ih.2, List.foldl_append]
      rfl
  exact hboth.2

/-! ### Executing a run -/

section Exec

variable (step : σ → α → Option σ) (ok : σ → α → Prop) [∀ s a, Decidable (ok s a)]

/-- Take the labels one after the other, stopping at the first step that is not
enabled or does not meet the guard. -/
def exec : σ → List α → Option σ
  | s, [] => some s
  | s, a :: labels => if ok s a then (step s a).bind fun u => exec u labels else none

variable {step ok}

theorem run_append_of_exec {pre labels : List α} (hrun : Run step ok s pre t)
    (h : exec step ok t labels = some u) : Run step ok s (pre ++ labels) u := by
  induction labels generalizing pre t with
  | nil =>
    simp only [exec, Option.some.injEq] at h
    subst h
    simpa using hrun
  | cons a labels ih =>
    simp only [exec] at h
    split at h
    · rename_i hok
      rw [Option.bind_eq_some_iff] at h
      obtain ⟨v, hv, hrest⟩ := h
      have hnext := ih (hrun.snoc hok hv) hrest
      simpa using hnext
    · cases h

theorem run_of_exec {labels : List α} (h : exec step ok s labels = some t) :
    Run step ok s labels t := by
  simpa using run_append_of_exec .nil h

/-- An execution that ends in a state with property `p` is a run to one. -/
theorem exists_run_of_exec {labels : List α} {p : σ → Bool}
    (h : (exec step ok s labels).any p = true) : ∃ t, Run step ok s labels t ∧ p t = true := by
  cases hexec : exec step ok s labels with
  | none => simp [hexec] at h
  | some t =>
    exact ⟨t, run_of_exec hexec, by simpa [hexec] using h⟩

end Exec

end Transition
