import MockExchange.Lib.ByteMemory
import Mathlib.Algebra.BigOperators.Group.List.Basic
import Mathlib.Data.List.TakeWhile

/-!
# Packed records

A record is a list of fields that lie one after the other in declared order,
little-endian and without padding. A number has a width in bytes and a sign or
none, a character array a length, and a text that is shorter is followed by
zeros. Encoding and decoding go over the record as a whole.
-/

namespace PackedRecord

open ByteMemory

/-- Numbers by their width in bytes, character arrays by their length. -/
inductive FieldType where
  | unsigned (width : Nat)
  | signed (width : Nat)
  | chars (length : Nat)
deriving DecidableEq, Repr

inductive Value where
  | number (n : Int)
  | text (bytes : List UInt8)
deriving DecidableEq, Repr

/-- The two's complement of a number, cut to `width` bytes. -/
def twosComplement (width : Nat) (n : Int) : Nat := (n % (256 ^ width : Nat)).toNat

/-- The signed number a two's complement stands for. -/
def ofTwosComplement (width value : Nat) : Int :=
  if 2 * value < 256 ^ width then value else value - (256 ^ width : Nat)

namespace FieldType

def size : FieldType → Nat
  | unsigned width => width
  | signed width => width
  | chars length => length

/-- A character array is padded with zeros. -/
def encode : FieldType → Value → List UInt8
  | unsigned width, .number n => leBytes width (twosComplement width n)
  | signed width, .number n => leBytes width (twosComplement width n)
  | chars length, .text bytes => bytes ++ List.replicate (length - bytes.length) 0
  | _, _ => []

/-- The text of a character array ends before the first zero. -/
def decode : FieldType → List UInt8 → Value
  | unsigned _, bytes => .number (leNat bytes)
  | signed width, bytes => .number (ofTwosComplement width (leNat bytes))
  | chars _, bytes => .text (bytes.takeWhile (· ≠ 0))

/-- What a field of zeros holds. -/
def zero : FieldType → Value
  | unsigned _ => .number 0
  | signed _ => .number 0
  | chars _ => .text []

end FieldType

namespace Value

/-- The value is one of those the field's type has. -/
def Fits : FieldType → Value → Prop
  | .unsigned width, number n => 0 ≤ n ∧ n < (256 ^ width : Nat)
  | .signed width, number n => -(256 ^ width : Nat) ≤ 2 * n ∧ 2 * n < (256 ^ width : Nat)
  | .chars length, text bytes => bytes.length ≤ length
  | _, _ => False

/-- No character of a text is the terminator. -/
def NulFree : Value → Prop
  | number _ => True
  | text bytes => (0 : UInt8) ∉ bytes

instance : ∀ (type : FieldType) (v : Value), Decidable (v.Fits type)
  | .unsigned _, number _ => inferInstanceAs (Decidable (_ ∧ _))
  | .signed _, number _ => inferInstanceAs (Decidable (_ ∧ _))
  | .chars _, text _ => inferInstanceAs (Decidable (_ ≤ _))
  | .unsigned _, text _ => isFalse id
  | .signed _, text _ => isFalse id
  | .chars _, number _ => isFalse id

instance : ∀ v : Value, Decidable v.NulFree
  | number _ => isTrue trivial
  | text _ => inferInstanceAs (Decidable (_ ∉ _))

end Value

structure Field where
  name : String
  type : FieldType
deriving DecidableEq, Repr

abbrev Layout := List Field

namespace Layout

def size (layout : Layout) : Nat := (layout.map (·.type.size)).sum

/-- The whole record. -/
def encode : Layout → List Value → List UInt8
  | field :: fields, v :: vs => field.type.encode v ++ encode fields vs
  | _, _ => []

def decode : Layout → List UInt8 → List Value
  | [], _ => []
  | field :: fields, bytes =>
    field.type.decode (bytes.take field.type.size) :: decode fields (bytes.drop field.type.size)

/-- A value for every field, of the field's type. -/
def Fit (layout : Layout) (vs : List Value) : Prop :=
  List.Forall₂ (fun field v => v.Fits field.type) layout vs

end Layout

/-! ### One field -/

section

variable {width : Nat} {n : Int} {type : FieldType} {v : Value} {bytes : List UInt8}

theorem modulus_pos (width : Nat) : (0 : Int) < (256 ^ width : Nat) :=
  Int.natCast_pos.mpr (Nat.pow_pos (by decide))

theorem twosComplement_cast (width : Nat) (n : Int) :
    (twosComplement width n : Int) = n % (256 ^ width : Nat) :=
  Int.toNat_of_nonneg (Int.emod_nonneg n (modulus_pos width).ne')

theorem twosComplement_lt (width : Nat) (n : Int) : twosComplement width n < 256 ^ width := by
  have hlt := Int.emod_lt_of_pos n (modulus_pos width)
  rw [← twosComplement_cast] at hlt
  exact_mod_cast hlt

theorem leNat_leBytes_twosComplement (width : Nat) (n : Int) :
    leNat (leBytes width (twosComplement width n)) = twosComplement width n :=
  leNat_leBytes_of_lt (twosComplement_lt width n)

/-- A number is encoded by its remainder. -/
theorem leBytes_mod (width value : Nat) :
    leBytes width (value % 256 ^ width) = leBytes width value := by
  have h := leBytes_leNat (leBytes width value)
  rwa [length_leBytes, leNat_leBytes] at h

theorem leBytes_twosComplement (width value : Nat) :
    leBytes width (twosComplement width value) = leBytes width value := by
  rw [twosComplement, ← Int.natCast_mod, Int.toNat_natCast, leBytes_mod]

theorem twosComplement_of_fits (h : (Value.number n).Fits (.unsigned width)) :
    (twosComplement width n : Int) = n := by
  rw [twosComplement_cast]
  exact Int.emod_eq_of_lt h.1 h.2

theorem ofTwosComplement_twosComplement (h : (Value.number n).Fits (.signed width)) :
    ofTwosComplement width (twosComplement width n) = n := by
  have hcast := twosComplement_cast width n
  obtain ⟨hlo, hhi⟩ := h
  unfold ofTwosComplement
  generalize 256 ^ width = N at *
  rcases Int.lt_or_le n 0 with hneg | hpos
  · have hshift : n % (N : Int) = n + N := by
      rw [← Int.add_emod_right, Int.emod_eq_of_lt (by omega) (by omega)]
    rw [if_neg (by omega), hcast, hshift]
    omega
  · have hsame : n % (N : Int) = n := Int.emod_eq_of_lt hpos (by omega)
    rw [if_pos (by omega), hcast, hsame]

namespace FieldType

theorem length_encode (h : v.Fits type) : (type.encode v).length = type.size := by
  cases type with
  | unsigned width =>
    cases v with
    | number n => exact length_leBytes _ _
    | text bytes => exact h.elim
  | signed width =>
    cases v with
    | number n => exact length_leBytes _ _
    | text bytes => exact h.elim
  | chars length =>
    cases v with
    | number n => exact h.elim
    | text bytes =>
      have hle : bytes.length ≤ length := h
      simp only [encode, List.length_append, List.length_replicate, size]
      omega

theorem takeWhile_eq_self_of_nulFree (h : (Value.text bytes).NulFree) :
    bytes.takeWhile (· ≠ 0) = bytes := by
  apply List.takeWhile_eq_self_iff.mpr
  intro b hb
  have hne : b ≠ 0 := fun hzero => h (hzero ▸ hb)
  simpa using hne

theorem takeWhile_padded (h : (Value.text bytes).NulFree) (n : Nat) :
    (bytes ++ List.replicate n 0).takeWhile (· ≠ 0) = bytes := by
  have hpadding : (List.replicate n (0 : UInt8)).takeWhile (· ≠ 0) = [] := by
    cases n <;> simp [List.replicate_succ]
  have hall : ∀ b ∈ bytes, decide (b ≠ 0) = true := by
    intro b hb
    have hne : b ≠ 0 := fun hzero => h (hzero ▸ hb)
    simpa using hne
  rw [List.takeWhile_append_of_pos hall, hpadding, List.append_nil]

/-- Decoding gives back a value of the field's type, if no character of a text
is the terminator. -/
theorem decode_encode (h : v.Fits type) (hfree : v.NulFree) :
    type.decode (type.encode v) = v := by
  cases type with
  | unsigned width =>
    cases v with
    | number n =>
      simp only [encode, decode, leNat_leBytes_twosComplement, twosComplement_of_fits h]
    | text bytes => exact h.elim
  | signed width =>
    cases v with
    | number n =>
      simp only [encode, decode, leNat_leBytes_twosComplement, ofTwosComplement_twosComplement h]
    | text bytes => exact h.elim
  | chars length =>
    cases v with
    | number n => exact h.elim
    | text bytes => simp only [encode, decode, takeWhile_padded hfree]

theorem decode_nulFree (type : FieldType) (bytes : List UInt8) : (type.decode bytes).NulFree := by
  cases type with
  | unsigned width => trivial
  | signed width => trivial
  | chars length =>
    intro hmem
    have hne := List.mem_takeWhile_imp hmem
    simp at hne

theorem encode_zero (type : FieldType) : type.encode type.zero = List.replicate type.size 0 := by
  cases type with
  | unsigned width => exact leBytes_zero width
  | signed width => exact leBytes_zero width
  | chars length => rfl

end FieldType

end

namespace Layout

section

variable {layout other : Layout} {vs ws : List Value}

/-! ### Whole records -/

@[simp] theorem size_cons (field : Field) (layout : Layout) :
    size (field :: layout) = field.type.size + layout.size := by
  simp [size]

theorem fit_map_iff {value : Field → Value} :
    layout.Fit (layout.map value) ↔ ∀ field ∈ layout, (value field).Fits field.type := by
  rw [Fit, List.forall₂_map_right_iff, List.forall₂_same]

theorem length_encode (h : layout.Fit vs) : (layout.encode vs).length = layout.size := by
  induction h with
  | nil => rfl
  | cons hfit hrest ih =>
    rw [encode, List.length_append, FieldType.length_encode hfit, ih, size_cons]

/-- Decoding a record gives back its values. -/
theorem decode_encode (h : layout.Fit vs) (hfree : ∀ v ∈ vs, v.NulFree) :
    layout.decode (layout.encode vs) = vs := by
  induction h with
  | nil => rfl
  | @cons field v fields vs hfit hrest ih =>
    have hlength := FieldType.length_encode hfit
    have hhead : (field.type.encode v ++ encode fields vs).take field.type.size =
        field.type.encode v := List.take_left' hlength
    have htail : (field.type.encode v ++ encode fields vs).drop field.type.size =
        encode fields vs := List.drop_left' hlength
    rw [encode, decode, hhead, htail,
      FieldType.decode_encode hfit (hfree v List.mem_cons_self),
      ih fun v hv => hfree v (List.mem_cons_of_mem _ hv)]

theorem decode_nulFree (layout : Layout) (bytes : List UInt8) :
    ∀ v ∈ layout.decode bytes, v.NulFree := by
  induction layout generalizing bytes with
  | nil =>
    intro v hv
    cases hv
  | cons field fields ih =>
    intro v hv
    rcases List.mem_cons.mp hv with rfl | hrest
    · exact FieldType.decode_nulFree _ _
    · exact ih _ v hrest

/-- Records have the same bytes exactly if they have the same values. -/
theorem encode_inj (h : layout.Fit vs) (hfree : ∀ v ∈ vs, v.NulFree)
    (h' : layout.Fit ws) (hfree' : ∀ w ∈ ws, w.NulFree) :
    layout.encode vs = layout.encode ws ↔ vs = ws := by
  constructor
  · intro heq
    rw [← decode_encode h hfree, heq, decode_encode h' hfree']
  · intro heq
    rw [heq]

/-! ### Layouts of the same types -/

theorem size_congr (h : layout.map Field.type = other.map Field.type) :
    layout.size = other.size := by
  have hsizes := congrArg (List.map FieldType.size) h
  rw [List.map_map, List.map_map] at hsizes
  exact congrArg List.sum hsizes

theorem encode_congr (h : layout.map Field.type = other.map Field.type) (vs : List Value) :
    layout.encode vs = other.encode vs := by
  induction layout generalizing other vs with
  | nil =>
    cases other with
    | nil => rfl
    | cons field fields => cases h
  | cons field fields ih =>
    cases other with
    | nil => cases h
    | cons field' fields' =>
      obtain ⟨htype, hrest⟩ := List.cons.inj h
      cases vs with
      | nil => rfl
      | cons v vs => rw [encode, encode, htype, ih hrest]

theorem decode_congr (h : layout.map Field.type = other.map Field.type) (bytes : List UInt8) :
    layout.decode bytes = other.decode bytes := by
  induction layout generalizing other bytes with
  | nil =>
    cases other with
    | nil => rfl
    | cons field fields => cases h
  | cons field fields ih =>
    cases other with
    | nil => cases h
    | cons field' fields' =>
      obtain ⟨htype, hrest⟩ := List.cons.inj h
      rw [decode, decode, htype, ih hrest]

theorem fit_congr (h : layout.map Field.type = other.map Field.type) :
    layout.Fit vs ↔ other.Fit vs := by
  have hone : ∀ l : Layout, l.Fit vs ↔ List.Forall₂ (fun t v => v.Fits t) (l.map Field.type) vs :=
    fun l => (List.forall₂_map_left_iff).symm
  rw [hone, hone, h]

end

end Layout

end PackedRecord
