import MockExchange.Lib.Transition

/-!
# Events of a run

What a run shows to the outside is the list of its steps' events. One system
refines another when every list of events its runs can show is one the other's
runs can show too. The rule here is the one for an abstraction function: the
steps of the refining system are matched by runs of the other between the images
of the two states, with the same events.
-/

namespace Transition

variable {σ α ε : Type*} (step : σ → α → Option σ) (ok : σ → α → Prop) (emit : σ → α → List ε)

/-- `Emits step ok emit s events t`: a guarded run from `s` to `t` shows `events`. -/
inductive Emits (s : σ) : List ε → σ → Prop where
  | nil : Emits s [] s
  | snoc {events : List ε} {t u : σ} {a : α} :
      Emits s events t → ok t a → step t a = some u → Emits s (events ++ emit t a) u

variable {step ok emit} {s t u : σ} {events events' : List ε}

theorem Emits.one {a : α} (hok : ok s a) (hs : step s a = some t) :
    Emits step ok emit s (emit s a) t := by
  have hone : Emits step ok emit s ([] ++ emit s a) t := .snoc .nil hok hs
  simpa using hone

theorem Emits.append (h : Emits step ok emit s events t) (h' : Emits step ok emit t events' u) :
    Emits step ok emit s (events ++ events') u := by
  induction h' with
  | nil => simpa using h
  | snoc _ hok hs ih =>
    rw [← List.append_assoc]
    exact ih.snoc hok hs

/-- **The invariant rule**, for what relates the state to the events so far. -/
theorem Emits.invariant {P : List ε → σ → Prop} (hstart : P [] s)
    (hstep : ∀ events t a u, P events t → ok t a → step t a = some u → P (events ++ emit t a) u)
    (h : Emits step ok emit s events t) : P events t := by
  induction h with
  | nil => exact hstart
  | snoc _ hok hs ih => exact hstep _ _ _ _ ih hok hs

/-- **The refinement rule.** Under an invariant of the refining system, every
list of events it shows is shown by the other one. -/
theorem Emits.refine {τ β : Type*} {step' : τ → β → Option τ} {ok' : τ → β → Prop}
    {emit' : τ → β → List ε} {P : σ → Prop} {f : σ → τ} (hstart : P s)
    (hstep : ∀ t a u, P t → ok t a → step t a = some u →
      P u ∧ Emits step' ok' emit' (f t) (emit t a) (f u))
    (h : Emits step ok emit s events t) : Emits step' ok' emit' (f s) events (f t) := by
  have hboth : P t ∧ Emits step' ok' emit' (f s) events (f t) := by
    induction h with
    | nil => exact ⟨hstart, .nil⟩
    | snoc _ hok hs ih =>
      obtain ⟨hkept, hmatch⟩ := hstep _ _ _ ih.1 hok hs
      exact ⟨hkept, ih.2.append hmatch⟩
  exact hboth.2

/-! ### Executing a run with its events -/

section Exec

variable (step ok emit) [∀ s a, Decidable (ok s a)]

/-- Take the labels one after the other and collect the events. -/
def execEmits : List ε → σ → List α → Option (List ε × σ)
  | events, s, [] => some (events, s)
  | events, s, a :: labels =>
    if ok s a then (step s a).bind fun u => execEmits (events ++ emit s a) u labels else none

variable {step ok emit}

theorem emits_of_exec {labels : List α} (h : Emits step ok emit s events t)
    (hexec : execEmits step ok emit events t labels = some (events', u)) :
    Emits step ok emit s events' u := by
  induction labels generalizing events t with
  | nil =>
    simp only [execEmits, Option.some.injEq, Prod.mk.injEq] at hexec
    obtain ⟨rfl, rfl⟩ := hexec
    exact h
  | cons a labels ih =>
    simp only [execEmits] at hexec
    split at hexec
    · rename_i hok
      obtain ⟨v, hv, hrest⟩ := Option.bind_eq_some_iff.mp hexec
      exact ih (h.snoc hok hv) hrest
    · cases hexec

/-- An execution with a property is a run with that property. -/
theorem exists_emits_of_exec {labels : List α} {p : List ε × σ → Bool}
    (h : (execEmits step ok emit [] s labels).any p = true) :
    ∃ events t, Emits step ok emit s events t ∧ p (events, t) = true := by
  cases hexec : execEmits step ok emit [] s labels with
  | none => simp [hexec] at h
  | some result =>
    obtain ⟨events, t⟩ := result
    exact ⟨events, t, emits_of_exec .nil hexec, by simpa [hexec] using h⟩

end Exec

end Transition
