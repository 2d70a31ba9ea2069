import MockExchange.Lib.ByteMemory
import Mathlib.Data.List.TakeWhile

/-!
# Programs that look at the bytes of a message

A reading is a program that fetches single bytes of a message, decides on each
what to do next, and returns a value. Whether it stays inside a message of some
length depends on the bytes it finds on its way, so a condition for that is put
together along the binds of the program.
-/

namespace ByteReading

open ByteMemory Memory

inductive Reading (α : Type) where
  | done (a : α)
  | fetch (offset : Nat) (next : UInt8 → Reading α)

namespace Reading

variable {α β : Type}

def bind : Reading α → (α → Reading β) → Reading β
  | done a, f => f a
  | fetch offset next, f => fetch offset fun byte => (next byte).bind f

instance : Monad Reading where
  pure := done
  bind := bind

/-- What the program returns on a message that starts at address 0 of `m`. -/
def run (m : Memory) : Reading α → α
  | done a => a
  | fetch offset next => (next (m offset)).run m

/-- Every byte it fetches is one of the first `n`. -/
def Inside (m : Memory) (n : Nat) : Reading α → Prop
  | done _ => True
  | fetch offset next => offset < n ∧ (next (m offset)).Inside m n

end Reading

open Reading

/-! ### Fields -/

/-- The `width` bytes from `offset` on. -/
def readBytes : (offset width : Nat) → Reading (List UInt8)
  | _, 0 => done []
  | offset, width + 1 =>
    fetch offset fun byte => (readBytes (offset + 1) width).bind fun bytes => done (byte :: bytes)

/-- A little-endian number. -/
def readNumber (offset width : Nat) : Reading Nat :=
  (readBytes offset width).bind fun bytes => done (leNat bytes)

/-- A text of at most `length` bytes, up to its terminator. -/
def readText : (offset length : Nat) → Reading (List UInt8)
  | _, 0 => done []
  | offset, length + 1 => fetch offset fun byte =>
    if byte = 0 then done []
    else (readText (offset + 1) length).bind fun bytes => done (byte :: bytes)

/-- The text of a field. -/
def textAt (m : Memory) (offset length : Nat) : List UInt8 :=
  (m.bytes offset length).takeWhile (· ≠ 0)

/-- Where the bytes end that tell the text: behind its terminator, or with the
field. -/
def textEnd (m : Memory) (offset length : Nat) : Nat :=
  offset + min length ((textAt m offset length).length + 1)

section

variable {α β : Type} {m : Memory} {n offset width length : Nat} {x : Reading α}
  {f : α → Reading β}

@[simp] theorem run_done (a : α) : (done a).run m = a := rfl

@[simp] theorem inside_done (a : α) : (done a).Inside m n := trivial

@[simp] theorem run_bind (x : Reading α) (f : α → Reading β) :
    (x.bind f).run m = (f (x.run m)).run m := by
  induction x with
  | done a => rfl
  | fetch offset next ih => exact ih (m offset)

/-- A program stays inside if its first part does, and its second on what the
first returns. -/
@[simp] theorem inside_bind (x : Reading α) (f : α → Reading β) :
    (x.bind f).Inside m n ↔ x.Inside m n ∧ (f (x.run m)).Inside m n := by
  induction x with
  | done a => exact (iff_of_eq (true_and _)).symm
  | fetch offset next ih =>
    change _ ∧ ((next (m offset)).bind f).Inside m n ↔ (_ ∧ _) ∧ _
    rw [ih (m offset), and_assoc]
    rfl

theorem bytes_succ (m : Memory) (offset width : Nat) :
    m.bytes offset (width + 1) = m offset :: m.bytes (offset + 1) width := by
  rw [Nat.add_comm width 1, bytes_add]
  rfl

@[simp] theorem run_readBytes : (readBytes offset width).run m = m.bytes offset width := by
  induction width generalizing offset with
  | zero => rfl
  | succ width ih =>
    rw [bytes_succ, ← ih]
    exact run_bind _ _

theorem inside_readBytes (hpos : 0 < width) :
    (readBytes offset width).Inside m n ↔ offset + width ≤ n := by
  induction width generalizing offset with
  | zero => exact absurd hpos (lt_irrefl 0)
  | succ width ih =>
    change offset < n ∧ ((readBytes (offset + 1) width).bind _).Inside m n ↔ _
    rw [inside_bind]
    cases width with
    | zero =>
      constructor
      · rintro ⟨hlt, -⟩
        exact hlt
      · intro hle
        exact ⟨hle, trivial, trivial⟩
    | succ width =>
      rw [ih (Nat.succ_pos width)]
      constructor
      · rintro ⟨-, hle, -⟩
        omega
      · intro hle
        exact ⟨by omega, by omega, trivial⟩

@[simp] theorem run_readNumber : (readNumber offset width).run m = m.load offset width := by
  rw [readNumber, run_bind, run_readBytes]
  rfl

theorem inside_readNumber (hpos : 0 < width) :
    (readNumber offset width).Inside m n ↔ offset + width ≤ n := by
  rw [readNumber, inside_bind, inside_readBytes hpos]
  exact and_iff_left trivial

theorem textAt_succ (m : Memory) (offset length : Nat) : textAt m offset (length + 1) =
    if m offset = 0 then [] else m offset :: textAt m (offset + 1) length := by
  rw [textAt, bytes_succ, List.takeWhile_cons]
  by_cases hzero : m offset = 0
  · simp [hzero]
  · simp [hzero, textAt]

@[simp] theorem run_readText : (readText offset length).run m = textAt m offset length := by
  induction length generalizing offset with
  | zero => rfl
  | succ length ih =>
    rw [textAt_succ]
    change (if m offset = 0 then done []
      else (readText (offset + 1) length).bind fun bytes => done (m offset :: bytes)).run m = _
    split
    · rfl
    · rw [run_bind, ih, run_done]

theorem inside_readText (hpos : 0 < length) :
    (readText offset length).Inside m n ↔ textEnd m offset length ≤ n := by
  induction length generalizing offset with
  | zero => exact absurd hpos (lt_irrefl 0)
  | succ length ih =>
    rw [textEnd, textAt_succ]
    change offset < n ∧ (if m offset = 0 then done []
      else (readText (offset + 1) length).bind fun bytes => done (m offset :: bytes)).Inside m n ↔ _
    split
    · rw [List.length_nil, Nat.min_eq_right (by omega)]
      exact and_iff_left trivial
    · rw [inside_bind, List.length_cons]
      cases length with
      | zero =>
        rw [Nat.min_eq_left (by omega)]
        constructor
        · rintro ⟨hlt, -⟩
          exact hlt
        · intro hle
          exact ⟨hle, trivial, trivial⟩
      | succ length =>
        rw [ih (Nat.succ_pos length), textEnd]
        constructor
        · rintro ⟨-, hle, -⟩
          omega
        · intro hle
          exact ⟨by omega, by omega, trivial⟩

theorem textEnd_le (m : Memory) (offset length : Nat) : textEnd m offset length ≤ offset + length :=
  Nat.add_le_add_left (Nat.min_le_left _ _) _

theorem lt_textEnd (m : Memory) (hpos : 0 < length) : offset < textEnd m offset length := by
  unfold textEnd
  omega

end

end ByteReading
