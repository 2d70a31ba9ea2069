import Mathlib.Data.List.Basic
import Mathlib.Data.List.Infix
import Mathlib.Tactic.Ring

/-!
# Consecutive intervals and their residues

A list of intervals tiles `[a, z)` when each starts where the one before it
ends and none is empty. The last section places such intervals in a ring of
`Q` cells: two that lie in one window of `Q` consecutive numbers and do not
straddle a multiple of `Q` occupy disjoint cells.
-/

namespace Tiling

variable {α : Type*} (start len : α → Nat)

/-- `xs` tiles `[a, z)` with non-empty intervals, in order. -/
def Tiles : Nat → List α → Nat → Prop
  | a, [], z => a = z
  | a, x :: xs, z => start x = a ∧ 0 < len x ∧ Tiles (a + len x) xs z

/-- The places where an interval starts, and the end of the last one. -/
def Boundary (xs : List α) (z p : Nat) : Prop := p = z ∨ ∃ x ∈ xs, start x = p

/-- The intervals that start in `[c, d)`. -/
def slice (xs : List α) (c d : Nat) : List α :=
  xs.filter fun x => decide (c ≤ start x) && decide (start x < d)

variable {start len} {a z : Nat} {xs : List α} {x y : α}

theorem mem_slice {c d : Nat} : x ∈ slice start xs c d ↔ x ∈ xs ∧ c ≤ start x ∧ start x < d := by
  simp [slice]

/-! ### Order -/

theorem Tiles.le (h : Tiles start len a xs z) : a ≤ z := by
  induction xs generalizing a with
  | nil => exact Nat.le_of_eq h
  | cons x xs ih =>
    obtain ⟨-, -, hrest⟩ := h
    have := ih hrest
    omega

theorem Tiles.bounds (h : Tiles start len a xs z) (hx : x ∈ xs) :
    a ≤ start x ∧ 0 < len x ∧ start x + len x ≤ z := by
  induction xs generalizing a with
  | nil => cases hx
  | cons y ys ih =>
    obtain ⟨hstart, hpos, hrest⟩ := h
    rcases List.mem_cons.mp hx with rfl | hx
    · have := hrest.le
      omega
    · have := ih hrest hx
      omega

/-- Of two intervals one ends before the other starts, or they are the same. -/
theorem Tiles.disjoint (h : Tiles start len a xs z) (hx : x ∈ xs) (hy : y ∈ xs) :
    start x + len x ≤ start y ∨ start y + len y ≤ start x ∨ x = y := by
  induction xs generalizing a with
  | nil => cases hx
  | cons w ws ih =>
    obtain ⟨hstart, -, hrest⟩ := h
    rcases List.mem_cons.mp hx with rfl | hx' <;> rcases List.mem_cons.mp hy with rfl | hy'
    · exact Or.inr (Or.inr rfl)
    · have := hrest.bounds hy'
      omega
    · have := hrest.bounds hx'
      omega
    · exact ih hrest hx' hy'

theorem Tiles.eq_of_start_eq (h : Tiles start len a xs z) (hx : x ∈ xs) (hy : y ∈ xs)
    (heq : start x = start y) : x = y := by
  have hxb := h.bounds hx
  have hyb := h.bounds hy
  rcases h.disjoint hx hy with hd | hd | hd
  · omega
  · omega
  · exact hd

/-- An interval that starts before another ends before it. -/
theorem Tiles.end_le_of_lt (h : Tiles start len a xs z) (hx : x ∈ xs) (hy : y ∈ xs)
    (hlt : start x < start y) : start x + len x ≤ start y := by
  have hyb := h.bounds hy
  rcases h.disjoint hx hy with hd | hd | hd
  · exact hd
  · omega
  · subst hd
    omega

/-- Every number below the end lies in an interval. -/
theorem Tiles.cover (h : Tiles start len a xs z) {p : Nat} (hlo : a ≤ p) (hhi : p < z) :
    ∃ x ∈ xs, start x ≤ p ∧ p < start x + len x := by
  induction xs generalizing a with
  | nil =>
    have : a = z := h
    omega
  | cons y ys ih =>
    obtain ⟨hstart, -, hrest⟩ := h
    by_cases hp : p < a + len y
    · exact ⟨y, by simp, by omega, by omega⟩
    · obtain ⟨x, hx, hb⟩ := ih hrest (by omega)
      exact ⟨x, by simp [hx], hb⟩

/-- Where a tiling ends is determined by where it starts. -/
theorem Tiles.end_unique {w : Nat} (h : Tiles start len a xs z) (h' : Tiles start len a xs w) :
    z = w := by
  induction xs generalizing a with
  | nil =>
    have hz : a = z := h
    have hw : a = w := h'
    omega
  | cons x xs ih => exact ih h.2.2 h'.2.2

/-- The lengths add up to what is tiled. -/
theorem Tiles.add_sum (h : Tiles start len a xs z) : a + (xs.map len).sum = z := by
  induction xs generalizing a with
  | nil => exact h
  | cons x xs ih =>
    obtain ⟨-, -, hrest⟩ := h
    rw [List.map_cons, List.sum_cons, ← Nat.add_assoc]
    exact ih hrest

theorem Tiles.append (h : Tiles start len a xs z) (hstart : start x = z) (hpos : 0 < len x) :
    Tiles start len a (xs ++ [x]) (z + len x) := by
  induction xs generalizing a with
  | nil =>
    have hz : a = z := h
    subst hz
    exact ⟨hstart, hpos, rfl⟩
  | cons y ys ih =>
    obtain ⟨hy, hypos, hrest⟩ := h
    exact ⟨hy, hypos, ih hrest⟩

/-! ### Boundaries -/

theorem Boundary.append {p : Nat} (h : Boundary start xs z p) (hstart : start x = z) (w : Nat) :
    Boundary start (xs ++ [x]) w p := by
  rcases h with rfl | ⟨y, hy, hp⟩
  · exact Or.inr ⟨x, by simp, hstart⟩
  · exact Or.inr ⟨y, by simp [hy], hp⟩

theorem Tiles.boundary_start (h : Tiles start len a xs z) : Boundary start xs z a := by
  cases xs with
  | nil => exact Or.inl h
  | cons x xs => exact Or.inr ⟨x, by simp, h.1⟩

/-- The end of an interval is a boundary. -/
theorem Tiles.boundary_end (h : Tiles start len a xs z) (hx : x ∈ xs) :
    Boundary start xs z (start x + len x) := by
  induction xs generalizing a with
  | nil => cases hx
  | cons y ys ih =>
    obtain ⟨hstart, -, hrest⟩ := h
    have htail : Boundary start ys z (start x + len x) := by
      rcases List.mem_cons.mp hx with rfl | hx
      · rw [hstart]
        exact hrest.boundary_start
      · exact ih hrest hx
    rcases htail with hz | ⟨w, hw, hp⟩
    · exact Or.inl hz
    · exact Or.inr ⟨w, by simp [hw], hp⟩

theorem Boundary.le {p : Nat} (hp : Boundary start xs z p) (h : Tiles start len a xs z) :
    p ≤ z := by
  rcases hp with rfl | ⟨x, hx, rfl⟩
  · exact Nat.le_refl _
  · have := h.bounds hx
    omega

/-- A boundary before the end is the start of an interval. -/
theorem Boundary.exists_of_lt {p : Nat} (hp : Boundary start xs z p) (hlt : p < z) :
    ∃ x ∈ xs, start x = p := by
  rcases hp with rfl | hx
  · exact absurd hlt (Nat.lt_irrefl _)
  · exact hx

/-- A boundary does not fall inside an interval. -/
theorem Tiles.end_le_boundary (h : Tiles start len a xs z) (hx : x ∈ xs) {p : Nat}
    (hp : Boundary start xs z p) (hlt : start x < p) : start x + len x ≤ p := by
  rcases hp with rfl | ⟨y, hy, rfl⟩
  · exact (h.bounds hx).2.2
  · exact h.end_le_of_lt hx hy hlt

/-! ### Slices -/

@[simp] theorem slice_self (c : Nat) : slice start xs c c = [] := by
  rw [slice, List.filter_eq_nil_iff]
  intro x _
  simp only [Bool.and_eq_true, decide_eq_true_eq, not_and]
  omega

theorem slice_congr {c d c' d' : Nat}
    (h : ∀ x ∈ xs, (c ≤ start x ∧ start x < d) ↔ (c' ≤ start x ∧ start x < d')) :
    slice start xs c d = slice start xs c' d' := by
  apply List.filter_congr
  intro x hx
  have := h x hx
  simp only [← Bool.decide_and, decide_eq_decide]
  exact this

/-- A new interval past `d` is not in the slice up to `d`. -/
theorem slice_append_of_le {c d : Nat} (h : d ≤ start x) :
    slice start (xs ++ [x]) c d = slice start xs c d := by
  have hx : ¬ start x < d := by omega
  simp [slice, hx]

/-- Extending a slice over one interval adds that interval at its end. -/
theorem Tiles.slice_end (h : Tiles start len a xs z) (hx : x ∈ xs) {c : Nat} (hc : c ≤ start x) :
    slice start xs c (start x + len x) = slice start xs c (start x) ++ [x] := by
  induction xs generalizing a with
  | nil => cases hx
  | cons y ys ih =>
    obtain ⟨hstart, hpos, hrest⟩ := h
    rcases List.mem_cons.mp hx with rfl | hx
    · have hnone : ∀ d, d ≤ start x + len x → slice start ys c d = [] := by
        intro d hd
        rw [slice, List.filter_eq_nil_iff]
        intro w hw
        have := hrest.bounds hw
        simp only [Bool.and_eq_true, decide_eq_true_eq, not_and]
        omega
      have hlt : start x < start x + len x := by omega
      have h1 := hnone _ (Nat.le_refl _)
      have h2 := hnone (start x) (by omega)
      simp only [slice] at h1 h2 ⊢
      simp [hc, hlt, h1, h2]
    · have hxb := hrest.bounds hx
      have hy1 : start y < start x := by omega
      have hy2 : start y < start x + len x := by omega
      have htail := ih hrest hx
      simp only [slice] at htail ⊢
      simp only [List.filter_cons, hy1, hy2, htail]
      split <;> simp

/-- The slices of a tiling in order of their upper end are prefixes of each other. -/
theorem Tiles.slice_prefix (h : Tiles start len a xs z) {c d e : Nat} (hde : d ≤ e) :
    slice start xs c d <+: slice start xs c e := by
  induction xs generalizing a with
  | nil => exact List.prefix_refl _
  | cons y ys ih =>
    obtain ⟨hstart, hpos, hrest⟩ := h
    have htail := ih hrest
    simp only [slice, List.filter_cons] at htail ⊢
    by_cases hd : start y < d
    · have he : start y < e := by omega
      simp only [hd, he]
      split
      · exact (List.prefix_cons_inj y).mpr htail
      · exact htail
    · -- no later interval starts below `d` either
      have hnil : ∀ w ∈ ys, ¬ (decide (c ≤ start w) && decide (start w < d)) = true := by
        intro w hw
        have := hrest.bounds hw
        simp only [Bool.and_eq_true, decide_eq_true_eq, not_and]
        omega
      rw [List.filter_eq_nil_iff.mpr hnil]
      simp [hd]

theorem Tiles.slice_all (h : Tiles start len a xs z) : slice start xs a z = xs := by
  rw [slice, List.filter_eq_self]
  intro x hx
  have := h.bounds hx
  simp only [Bool.and_eq_true, decide_eq_true_eq]
  omega

theorem Tiles.slice_adjacent (h : Tiles start len a xs z) {c d e : Nat} (hcd : c ≤ d)
    (hde : d ≤ e) : slice start xs c e = slice start xs c d ++ slice start xs d e := by
  induction xs generalizing a with
  | nil => rfl
  | cons y ys ih =>
    obtain ⟨hstart, hpos, hrest⟩ := h
    have htail := ih hrest
    simp only [slice, List.filter_cons] at htail ⊢
    rw [htail]
    by_cases hd : start y < d
    · have he : start y < e := by omega
      have hd' : ¬ d ≤ start y := by omega
      simp only [hd, he, hd']
      split <;> simp
    · have hnil : ∀ w ∈ ys, ¬ (decide (c ≤ start w) && decide (start w < d)) = true := by
        intro w hw
        have := hrest.bounds hw
        simp only [Bool.and_eq_true, decide_eq_true_eq, not_and]
        omega
      have hc : c ≤ start y := by omega
      have hd' : d ≤ start y := by omega
      simp [hd, hc, hd', List.filter_eq_nil_iff.mpr hnil]

/-- From a boundary on, a tiling is a tiling. -/
theorem Tiles.slice_tiles (h : Tiles start len a xs z) {c : Nat} (hc : Boundary start xs z c) :
    Tiles start len c (slice start xs c z) z := by
  induction xs generalizing a with
  | nil =>
    rcases hc with hc | ⟨x, hx, -⟩
    · exact hc
    · cases hx
  | cons y ys ih =>
    by_cases hca : c = a
    · rw [hca, h.slice_all]
      exact h
    · obtain ⟨hstart, hpos, hrest⟩ := h
      have hc' : Boundary start ys z c := by
        rcases hc with hc | ⟨x, hx, heq⟩
        · exact Or.inl hc
        · rcases List.mem_cons.mp hx with rfl | hx
          · omega
          · exact Or.inr ⟨x, hx, heq⟩
      have hle : a + len y ≤ c := by
        rcases hc' with rfl | ⟨x, hx, rfl⟩
        · exact hrest.le
        · exact (hrest.bounds hx).1
      have hskip : ¬ c ≤ start y := by omega
      have htail := ih hrest hc'
      simpa [slice, hskip] using htail

/-- The starts of a tiling are distinct. -/
theorem Tiles.nodup (h : Tiles start len a xs z) : (xs.map start).Nodup := by
  induction xs generalizing a with
  | nil => simp
  | cons y ys ih =>
    obtain ⟨hstart, hpos, hrest⟩ := h
    rw [List.map_cons, List.nodup_cons]
    refine ⟨?_, ih hrest⟩
    rintro hmem
    obtain ⟨w, hw, heq⟩ := List.mem_map.mp hmem
    have := hrest.bounds hw
    omega

/-! ### Ranks -/

/-- How many intervals start before `p`. -/
def rank (start : α → Nat) (xs : List α) (p : Nat) : Nat := xs.countP fun x => decide (start x < p)

theorem rank_append_of_le {p : Nat} (h : p ≤ start x) :
    rank start (xs ++ [x]) p = rank start xs p := by
  have hx : ¬ start x < p := by omega
  simp [rank, hx]

theorem Tiles.rank_end (h : Tiles start len a xs z) : rank start xs z = xs.length := by
  rw [rank, List.countP_eq_length]
  intro x hx
  have := h.bounds hx
  simp only [decide_eq_true_eq]
  omega

theorem Tiles.rank_start (h : Tiles start len a xs z) {p : Nat} (hp : p ≤ a) :
    rank start xs p = 0 := by
  rw [rank, List.countP_eq_zero]
  intro x hx
  have := h.bounds hx
  simp only [decide_eq_true_eq]
  omega

/-- An interval stands at the place its rank says. -/
theorem Tiles.getElem?_rank (h : Tiles start len a xs z) (hx : x ∈ xs) :
    xs[rank start xs (start x)]? = some x := by
  induction xs generalizing a with
  | nil => cases hx
  | cons y ys ih =>
    obtain ⟨hstart, hpos, hrest⟩ := h
    rcases List.mem_cons.mp hx with rfl | hx'
    · have hzero : rank start (x :: ys) (start x) = 0 := by
        rw [rank, List.countP_cons_of_neg (by simp)]
        exact hrest.rank_start (by omega)
      rw [hzero, List.getElem?_cons_zero]
    · have hbounds := hrest.bounds hx'
      have hlt : start y < start x := by omega
      rw [rank, List.countP_cons_of_pos (by simpa using hlt), List.getElem?_cons_succ]
      exact ih hrest hx'

/-- Inside an interval and at its end the rank is one more than at its start. -/
theorem Tiles.rank_succ (h : Tiles start len a xs z) (hx : x ∈ xs) {p : Nat}
    (hlo : start x < p) (hhi : p ≤ start x + len x) :
    rank start xs p = rank start xs (start x) + 1 := by
  induction xs generalizing a with
  | nil => cases hx
  | cons y ys ih =>
    obtain ⟨hstart, hpos, hrest⟩ := h
    rcases List.mem_cons.mp hx with rfl | hx'
    · rw [rank, rank, List.countP_cons_of_pos (by simpa using hlo),
        List.countP_cons_of_neg (by simp)]
      have hzero := hrest.rank_start (p := p) (by omega)
      have hzero' := hrest.rank_start (p := start x) (by omega)
      rw [rank] at hzero hzero'
      rw [hzero, hzero']
    · have hbounds := hrest.bounds hx'
      have hlt : start y < start x := by omega
      have hltp : start y < p := by omega
      rw [rank, rank, List.countP_cons_of_pos (by simpa using hltp),
        List.countP_cons_of_pos (by simpa using hlt)]
      exact congrArg (· + 1) (ih hrest hx')

/-! ### Intervals in a ring -/

/-- A number inside an interval that does not straddle a multiple of `Q` sits
in the ring at the same distance from the interval's start. -/
theorem mod_eq_of_mem {Q s n p : Nat} (hfit : s % Q + n ≤ Q) (hlo : s ≤ p) (hhi : p < s + n) :
    p % Q = s % Q + (p - s) := by
  obtain ⟨k, rfl⟩ := Nat.exists_eq_add_of_le hlo
  have hlt : s % Q + k < Q := by omega
  rw [Nat.add_sub_cancel_left, ← Nat.mod_add_mod, Nat.mod_eq_of_lt hlt]

/-- Two intervals of one window of length `Q`, the first ending before the
second starts, occupy disjoint ring cells. -/
theorem ring_disjoint {Q r s n t k : Nat} (hlo : r ≤ s) (horder : s + n ≤ t)
    (hhi : t + k ≤ r + Q) : s % Q + n ≤ t % Q ∨ t % Q + k ≤ s % Q := by
  have hsd := Nat.div_add_mod s Q
  have htd := Nat.div_add_mod t Q
  generalize s % Q = u at *
  generalize t % Q = v at *
  generalize s / Q = i at *
  generalize t / Q = j at *
  rcases Nat.lt_trichotomy i j with hij | rfl | hij
  · have hle : Q * (i + 1) ≤ Q * j := Nat.mul_le_mul_left Q hij
    rw [Nat.mul_succ] at hle
    by_cases hj : j = i + 1
    · subst hj
      rw [Nat.mul_succ] at htd
      omega
    · have hle2 : Q * (i + 2) ≤ Q * j := Nat.mul_le_mul_left Q (by omega)
      rw [Nat.mul_succ, Nat.mul_succ] at hle2
      omega
  · omega
  · have hle : Q * (j + 1) ≤ Q * i := Nat.mul_le_mul_left Q hij
    rw [Nat.mul_succ] at hle
    omega

end Tiling
