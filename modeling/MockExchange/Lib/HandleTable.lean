import MockExchange.Lib.ListUpdate
import Mathlib.Data.List.ReduceOption
import Mathlib.Data.List.Nodup
import Mathlib.Data.List.Range

/-!
# Owners of slots

A table of slots, each live or freed, and the owners that hold handles into it.
The discipline is that every handle leads to a live slot, that every live slot
has an owner and that no slot has two. Taking a new slot and freeing one's own
keep it, so nothing is freed twice, leaked, or used after it was freed.
-/

namespace HandleTable

open ListUpdate

variable {α : Type*} {owners : List (Option Nat)} {slots : List (Option α)} {i j h k : Nat} {x : α}

/-- Handles and live slots belong to each other one to one. -/
structure Owned (owners : List (Option Nat)) (slots : List (Option α)) : Prop where
  live : ∀ (i h : Nat), owners[i]? = some (some h) → ∃ x, slots[h]? = some (some x)
  covered : ∀ (h : Nat) (x : α), slots[h]? = some (some x) → ∃ i : Nat, owners[i]? = some (some h)
  unique : ∀ (i j h : Nat), owners[i]? = some (some h) → owners[j]? = some (some h) → i = j

/-- Owners that share no slot hold different handles. -/
theorem nodup_reduceOption
    (hunique : ∀ (i j h : Nat), owners[i]? = some (some h) → owners[j]? = some (some h) → i = j) :
    owners.reduceOption.Nodup := by
  induction owners with
  | nil => exact List.nodup_nil
  | cons o owners ih =>
    have hrest := ih fun i j h hi hj =>
      Nat.succ.inj (hunique (i + 1) (j + 1) h (by simpa using hi) (by simpa using hj))
    cases o with
    | none => exact hrest
    | some h =>
      rw [List.reduceOption_cons_of_some]
      refine List.nodup_cons.mpr ⟨fun hmem => ?_, hrest⟩
      obtain ⟨j, hj⟩ := List.mem_iff_getElem?.mp (List.reduceOption_mem_iff.mp hmem)
      exact absurd (hunique 0 (j + 1) h (by simp) (by simpa using hj)) (by omega)

namespace Owned

theorem nil : Owned [] ([] : List (Option α)) :=
  ⟨fun _ _ h => by simp at h, fun _ _ h => by simp at h, fun _ _ _ h => by simp at h⟩

theorem lt (hown : Owned owners slots) (hi : owners[i]? = some (some h)) : h < slots.length := by
  obtain ⟨x, hx⟩ := hown.live i h hi
  exact lt_of_getElem? hx

/-- Two owners never share a slot. -/
theorem ne (hown : Owned owners slots) (hi : owners[i]? = some (some h))
    (hj : owners[j]? = some (some k)) (hij : i ≠ j) : h ≠ k := by
  rintro rfl
  exact hij (hown.unique i j h hi hj)

/-- New owners hold nothing. -/
theorem addOwners (hown : Owned owners slots) (n : Nat) :
    Owned (owners ++ List.replicate n none) slots := by
  have hold : ∀ {i h : Nat}, (owners ++ List.replicate n none)[i]? = some (some h) →
      owners[i]? = some (some h) := by
    intro i h hi
    rcases Nat.lt_or_ge i owners.length with hlt | hge
    · rwa [List.getElem?_append_left hlt] at hi
    · rw [List.getElem?_append_right hge] at hi
      cases List.eq_of_mem_replicate (List.mem_of_getElem? hi)
  refine ⟨fun i h hi => hown.live i h (hold hi), fun h x hx => ?_,
    fun i j h hi hj => hown.unique i j h (hold hi) (hold hj)⟩
  obtain ⟨i, hi⟩ := hown.covered h x hx
  exact ⟨i, by rw [List.getElem?_append_left (lt_of_getElem? hi)]; exact hi⟩

/-- An owner that holds nothing takes a new slot. -/
theorem acquire (hown : Owned owners slots) (hi : owners[i]? = some none) (x : α) :
    Owned (owners.set i (some slots.length)) (slots ++ [some x]) := by
  refine ⟨?_, ?_, ?_⟩
  · intro j h hj
    rcases getElem?_set_cases hj with ⟨-, heq⟩ | ⟨-, hold⟩
    · obtain rfl := Option.some.inj heq
      exact ⟨x, by rw [List.getElem?_append_right (Nat.le_refl _), Nat.sub_self]; rfl⟩
    · obtain ⟨y, hy⟩ := hown.live j h hold
      exact ⟨y, by rw [List.getElem?_append_left (lt_of_getElem? hy)]; exact hy⟩
  · intro h y hy
    rcases Nat.lt_or_ge h slots.length with hlt | hge
    · rw [List.getElem?_append_left hlt] at hy
      obtain ⟨j, hj⟩ := hown.covered h y hy
      have hij : i ≠ j := by
        rintro rfl
        rw [hi] at hj
        cases hj
      exact ⟨j, by rw [List.getElem?_set_ne hij]; exact hj⟩
    · have hlen := lt_of_getElem? hy
      rw [List.length_append, List.length_singleton] at hlen
      have heq : h = slots.length := by omega
      exact ⟨i, by rw [heq, List.getElem?_set_self (lt_of_getElem? hi)]⟩
  · intro j k h hj hk
    rcases getElem?_set_cases hj with ⟨rfl, hnew⟩ | ⟨hne, hold⟩
    · rcases getElem?_set_cases hk with ⟨rfl, -⟩ | ⟨-, hold'⟩
      · rfl
      · obtain rfl := Option.some.inj hnew
        exact absurd (hown.lt hold') (Nat.lt_irrefl _)
    · rcases getElem?_set_cases hk with ⟨rfl, hnew'⟩ | ⟨-, hold'⟩
      · obtain rfl := Option.some.inj hnew'
        exact absurd (hown.lt hold) (Nat.lt_irrefl _)
      · exact hown.unique j k h hold hold'

/-- An owner frees its slot and lets go of the handle. -/
theorem release (hown : Owned owners slots) (hi : owners[i]? = some (some h)) :
    Owned (owners.set i none) (slots.set h none) := by
  refine ⟨?_, ?_, ?_⟩
  · intro j k hj
    rcases getElem?_set_cases hj with ⟨-, hnew⟩ | ⟨hne, hold⟩
    · cases hnew
    · obtain ⟨y, hy⟩ := hown.live j k hold
      exact ⟨y, by rw [List.getElem?_set_ne (hown.ne hi hold (Ne.symm hne))]; exact hy⟩
  · intro k y hy
    rcases getElem?_set_cases hy with ⟨-, hnew⟩ | ⟨hne, hold⟩
    · cases hnew
    · obtain ⟨j, hj⟩ := hown.covered k y hold
      have hij : i ≠ j := by
        rintro rfl
        rw [hi] at hj
        exact hne (Option.some.inj (Option.some.inj hj)).symm
      exact ⟨j, by rw [List.getElem?_set_ne hij]; exact hj⟩
  · intro j k l hj hk
    rcases getElem?_set_cases hj with ⟨-, hnew⟩ | ⟨-, hold⟩
    · cases hnew
    · rcases getElem?_set_cases hk with ⟨-, hnew'⟩ | ⟨-, hold'⟩
      · cases hnew'
      · exact hown.unique j k l hold hold'

/-- Nothing is live once nobody holds a handle. -/
theorem all_freed (hown : Owned owners slots) (hnone : ∀ o ∈ owners, o = none) :
    ∀ s ∈ slots, s = none := by
  intro s hs
  cases s with
  | none => rfl
  | some x =>
    obtain ⟨h, hh⟩ := List.mem_iff_getElem?.mp hs
    obtain ⟨i, hi⟩ := hown.covered h x hh
    cases hnone _ (List.mem_of_getElem? hi)

/-- The handles are the addresses of the live slots, in some order. -/
theorem perm (hown : Owned owners slots) : owners.reduceOption.Perm
    ((List.range slots.length).filter fun h => slots[h]?.join.isSome) := by
  rw [List.perm_ext_iff_of_nodup (nodup_reduceOption hown.unique) (List.nodup_range.filter _)]
  intro h
  rw [List.reduceOption_mem_iff, List.mem_filter, List.mem_range]
  constructor
  · intro hmem
    obtain ⟨i, hi⟩ := List.mem_iff_getElem?.mp hmem
    obtain ⟨x, hx⟩ := hown.live i h hi
    exact ⟨lt_of_getElem? hx, by rw [hx]; rfl⟩
  · rintro ⟨-, hlive⟩
    obtain ⟨x, hx⟩ := Option.isSome_iff_exists.mp hlive
    obtain ⟨i, hi⟩ := hown.covered h x (Option.join_eq_some_iff.mp hx)
    exact List.mem_of_getElem? hi

/-- What is counted over the live slots can be counted over their owners. -/
theorem countP_eq (hown : Owned owners slots) (p : Option α → Bool) (hp : p none = false) :
    slots.countP p = owners.countP fun o => p (o.bind fun h => slots[h]?.join) := by
  have hslots : slots.countP p = (List.range slots.length).countP fun h => p slots[h]?.join := by
    have hget : slots = (List.range slots.length).map fun h => slots[h]?.join := by
      apply List.ext_getElem?
      intro h
      rw [List.getElem?_map]
      rcases Nat.lt_or_ge h slots.length with hlt | hge
      · rw [List.getElem?_range hlt, Option.map_some, List.getElem?_eq_getElem hlt]
        rfl
      · rw [List.getElem?_eq_none hge, List.getElem?_eq_none (by simpa using hge)]
        rfl
    conv_lhs => rw [hget]
    rw [List.countP_map]
    rfl
  have hlive : (List.range slots.length).countP (fun h => p slots[h]?.join) =
      ((List.range slots.length).filter fun h => slots[h]?.join.isSome).countP
        fun h => p slots[h]?.join := by
    rw [List.countP_filter]
    refine List.countP_congr fun h _ => ?_
    cases hslot : slots[h]?.join with
    | none => simp [hp]
    | some x => simp
  have howners : owners.countP (fun o => p (o.bind fun h => slots[h]?.join)) =
      owners.reduceOption.countP fun h => p slots[h]?.join := by
    clear hown hslots hlive
    induction owners with
    | nil => rfl
    | cons o owners ih =>
      cases o with
      | none => rw [List.countP_cons_of_neg (by simp [hp]), ih, List.reduceOption_cons_of_none]
      | some h =>
        rw [List.countP_cons, ih, List.reduceOption_cons_of_some, List.countP_cons]
        rfl
  rw [hslots, hlive, howners]
  exact (hown.perm.countP_eq _).symm

end Owned

end HandleTable
