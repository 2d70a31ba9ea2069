import Mathlib.Algebra.BigOperators.Group.List.Basic
import Mathlib.Algebra.Ring.Nat
import Mathlib.Data.List.Basic

/-!
# Replacing one element of a list

Facts about `l.set i y` for an `i` that is known to hold `x`, in the form
invariants over a list of agents need: what holds of every element, which
elements are still there, and how a count changes.
-/

namespace ListUpdate

variable {α : Type*} {l : List α} {i : Nat} {x y z : α}

theorem lt_of_getElem? (h : l[i]? = some x) : i < l.length :=
  (List.getElem?_eq_some_iff.mp h).1

theorem forall_mem_set {P : α → Prop} (h : ∀ z ∈ l, P z) (hy : P y) :
    ∀ z ∈ l.set i y, P z := by
  intro z hz
  rcases List.mem_or_eq_of_mem_set hz with hz | rfl
  · exact h z hz
  · exact hy

theorem mem_set_of_ne (h : l[i]? = some x) (hz : z ∈ l) (hne : z ≠ x) : z ∈ l.set i y := by
  obtain ⟨j, hj⟩ := List.mem_iff_getElem?.mp hz
  have hij : i ≠ j := by
    rintro rfl
    rw [h] at hj
    exact hne (Option.some.inj hj).symm
  exact List.mem_iff_getElem?.mpr ⟨j, by rw [List.getElem?_set_ne hij]; exact hj⟩

theorem mem_set_of_mem_eraseIdx (hz : z ∈ l.eraseIdx i) : z ∈ l.set i y := by
  obtain ⟨j, hne, hj⟩ := List.mem_eraseIdx_iff_getElem?.mp hz
  exact List.mem_iff_getElem?.mpr ⟨j, by rw [List.getElem?_set_ne (Ne.symm hne)]; exact hj⟩

/-- A lookup after the update finds the new element or an old one elsewhere. -/
theorem getElem?_set_cases {j : Nat} (h : (l.set i y)[j]? = some z) :
    (j = i ∧ z = y) ∨ (j ≠ i ∧ l[j]? = some z) := by
  rw [List.getElem?_set] at h
  split at h
  · rename_i hij
    split at h
    · exact Or.inl ⟨hij.symm, (Option.some.inj h).symm⟩
    · cases h
  · rename_i hij
    exact Or.inr ⟨fun hji => hij hji.symm, h⟩

theorem countP_set (p : α → Bool) (h : l[i]? = some x) :
    (l.set i y).countP p + (if p x then 1 else 0) = l.countP p + (if p y then 1 else 0) := by
  obtain ⟨hlt, hx⟩ := List.getElem?_eq_some_iff.mp h
  have hset := List.countP_set (p := p) (a := y) hlt
  rw [hx] at hset
  by_cases hpx : p x = true
  · have hpos : 0 < l.countP p := List.countP_pos_iff.mpr ⟨x, List.mem_of_getElem? h, hpx⟩
    simp only [hpx, if_true] at hset ⊢
    omega
  · simp only [hpx] at hset ⊢
    simp only [Bool.false_eq_true, if_false] at hset ⊢
    omega

/-- Replacing an element by one the predicate judges alike keeps the count. -/
theorem countP_set_of_eq (p : α → Bool) (h : l[i]? = some x) (heq : p y = p x) :
    (l.set i y).countP p = l.countP p := by
  have hset := countP_set (y := y) p h
  rw [heq] at hset
  omega

/-- Replacing an element by one with the same image keeps the images. -/
theorem map_set_of_eq {β : Type*} (f : α → β) (h : l[i]? = some x) (heq : f y = f x) :
    (l.set i y).map f = l.map f := by
  have himage : (l.map f)[i]? = some (f x) := by rw [List.getElem?_map, h, Option.map_some]
  obtain ⟨hlt, hx⟩ := List.getElem?_eq_some_iff.mp himage
  rw [List.map_set, heq, ← hx, List.set_getElem_self]

/-- Where a function changes only at the one element at `i`, its image does. -/
theorem map_eq_set {β : Type*} {f g : α → β} (h : l[i]? = some x)
    (hother : ∀ j z, l[j]? = some z → j ≠ i → g z = f z) : l.map g = (l.map f).set i (g x) := by
  apply List.ext_getElem?
  intro j
  by_cases hij : j = i
  · subst hij
    rw [List.getElem?_set_self (by rw [List.length_map]; exact lt_of_getElem? h),
      List.getElem?_map, h, Option.map_some]
  · rw [List.getElem?_set_ne (Ne.symm hij), List.getElem?_map, List.getElem?_map]
    cases hz : l[j]? with
    | none => rfl
    | some z => rw [Option.map_some, Option.map_some, hother j z hz hij]

end ListUpdate
