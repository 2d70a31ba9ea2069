import Mathlib.Data.List.Basic
import Mathlib.Data.UInt
import Mathlib.Algebra.Ring.Nat
import Mathlib.Tactic.Ring

/-!
# Byte-addressed memory

A memory is a total map from addresses to bytes. Multi-byte fields are stored
little-endian. Every update comes with the bytes it leaves alone, so that a
caller can carry a fact about one range of addresses across a write to another
without looking at how either is encoded.
-/

namespace ByteMemory

/-- A memory: the byte at every address. -/
abbrev Memory := Nat → UInt8

/-! ### Little-endian numbers -/

/-- The `width` low-order bytes of `value`, least significant first. -/
def leBytes : (width value : Nat) → List UInt8
  | 0, _ => []
  | width + 1, value => UInt8.ofNat value :: leBytes width (value / 256)

/-- The number a little-endian byte string spells. -/
def leNat : List UInt8 → Nat
  | [] => 0
  | byte :: bytes => byte.toNat + 256 * leNat bytes

@[simp] theorem length_leBytes (width value : Nat) :
    (leBytes width value).length = width := by
  induction width generalizing value with
  | zero => rfl
  | succ width ih => simp [leBytes, ih]

/-- Encoding and decoding a number keeps it modulo the width of the field. -/
theorem leNat_leBytes (width value : Nat) :
    leNat (leBytes width value) = value % 256 ^ width := by
  induction width generalizing value with
  | zero => simp [leBytes, leNat, Nat.mod_one]
  | succ width ih =>
    have hbyte : (UInt8.ofNat value).toNat = value % 256 := by simp
    simp only [leBytes, leNat, ih, hbyte]
    rw [Nat.pow_succ', Nat.mod_mul]

theorem leNat_leBytes_of_lt {width value : Nat} (h : value < 256 ^ width) :
    leNat (leBytes width value) = value := by
  rw [leNat_leBytes, Nat.mod_eq_of_lt h]

/-- Every byte of the encoding of zero is zero. -/
theorem leBytes_zero (width : Nat) : leBytes width 0 = List.replicate width 0 := by
  induction width with
  | zero => rfl
  | succ width ih => simp [leBytes, ih, List.replicate_succ]

/-- Encoding undoes decoding. -/
theorem leBytes_leNat (bytes : List UInt8) : leBytes bytes.length (leNat bytes) = bytes := by
  induction bytes with
  | nil => rfl
  | cons byte bytes ih =>
    have hbyte : byte.toNat < 256 := byte.toNat_lt
    have hhead : UInt8.ofNat (byte.toNat + 256 * leNat bytes) = byte := by
      apply UInt8.toNat_inj.mp
      rw [UInt8.toNat_ofNat']
      omega
    have htail : (byte.toNat + 256 * leNat bytes) / 256 = leNat bytes := by omega
    rw [leNat, List.length_cons, leBytes, hhead, htail, ih]

/-- Byte `i` of an encoding. -/
theorem getElem?_leBytes {width value i : Nat} (h : i < width) :
    (leBytes width value)[i]? = some (UInt8.ofNat (value / 256 ^ i)) := by
  induction width generalizing value i with
  | zero => omega
  | succ width ih =>
    cases i with
    | zero => simp [leBytes]
    | succ i =>
      rw [leBytes, List.getElem?_cons_succ, ih (by omega), Nat.div_div_eq_div_mul,
        Nat.pow_succ']

/-- A byte string never spells more than its length allows. -/
theorem leNat_lt (bytes : List UInt8) : leNat bytes < 256 ^ bytes.length := by
  induction bytes with
  | nil => simp [leNat]
  | cons byte bytes ih =>
    have hbyte : byte.toNat < 256 := byte.toNat_lt
    simp only [leNat, List.length_cons, Nat.pow_succ']
    omega

namespace Memory

variable (m m' : Memory) (a n w : Nat)

/-! ### Reading and writing ranges -/

/-- The `n` bytes from address `a` on. -/
def bytes : List UInt8 := (List.range n).map fun i => m (a + i)

/-- `memset`: every byte of `[a, a + n)` becomes `value`. -/
def fill (value : UInt8) : Memory :=
  fun i => if a ≤ i ∧ i < a + n then value else m i

/-- `memcpy`: the byte string `bs` is copied to address `a`. -/
def write (bs : List UInt8) : Memory :=
  fun i => if a ≤ i ∧ i < a + bs.length then bs.getD (i - a) 0 else m i

/-- Replace the byte at `a`. -/
def setByte (value : UInt8) : Memory := m.fill a 1 value

/-- Store `value` in the `w`-byte field at `a`. -/
def store (value : Nat) : Memory := m.write a (leBytes w value)

/-- Load the `w`-byte field at `a`. -/
def load : Nat := leNat (m.bytes a w)

/-- `m` and `m'` hold the same bytes in `[a, a + n)`. -/
def SameOn : Prop := ∀ i, a ≤ i → i < a + n → m' i = m i

/-- `m'` differs from `m` at most in `[a, a + n)`. -/
def SameOutside : Prop := ∀ i, i < a ∨ a + n ≤ i → m' i = m i

variable {m m' : Memory} {a n w : Nat}

@[simp] theorem length_bytes : (m.bytes a n).length = n := by simp [bytes]

theorem getElem?_bytes {i : Nat} (h : i < n) : (m.bytes a n)[i]? = some (m (a + i)) := by
  simp [bytes, h]

theorem bytes_congr (h : SameOn m m' a n) : m'.bytes a n = m.bytes a n := by
  apply List.map_congr_left
  intro i hi
  have hi' : i < n := List.mem_range.mp hi
  exact h (a + i) (by omega) (by omega)

theorem load_congr (h : SameOn m m' a w) : m'.load a w = m.load a w := by
  simp only [load, bytes_congr h]

/-- The bytes of a field are those of the number it holds. -/
theorem apply_of_load {value i : Nat} (h : m.load a w = value) (hi : i < w) :
    m (a + i) = UInt8.ofNat (value / 256 ^ i) := by
  have hbytes := leBytes_leNat (m.bytes a w)
  change leBytes (m.bytes a w).length (m.load a w) = _ at hbytes
  rw [length_bytes, h] at hbytes
  have hbyte : (leBytes w value)[i]? = some (UInt8.ofNat (value / 256 ^ i)) :=
    getElem?_leBytes hi
  rw [hbytes, getElem?_bytes hi] at hbyte
  exact Option.some.inj hbyte

/-- A field of `w` bytes holds a number below `256 ^ w`. -/
theorem load_lt : m.load a w < 256 ^ w := by
  simpa [load] using leNat_lt (m.bytes a w)

/-- Splitting a range of bytes at `k`. -/
theorem bytes_add (k l : Nat) : m.bytes a (k + l) = m.bytes a k ++ m.bytes (a + k) l := by
  simp only [bytes, List.range_add, List.map_append, List.map_map]
  congr 1
  apply List.map_congr_left
  intro i _
  simp [Nat.add_assoc]

theorem bytes_eq_replicate {value : UInt8} (h : ∀ i, a ≤ i → i < a + n → m i = value) :
    m.bytes a n = List.replicate n value := by
  apply List.ext_getElem?
  intro i
  by_cases hi : i < n
  · rw [getElem?_bytes hi, h (a + i) (by omega) (by omega), List.getElem?_replicate, if_pos hi]
  · rw [List.getElem?_eq_none (by simpa using hi), List.getElem?_eq_none (by simpa using hi)]

/-! ### What a write changes -/

theorem SameOn.refl : SameOn m m a n := fun _ _ _ => rfl

theorem SameOn.trans {m'' : Memory} (h : SameOn m m' a n) (h' : SameOn m' m'' a n) :
    SameOn m m'' a n :=
  fun i hlo hhi => (h' i hlo hhi).trans (h i hlo hhi)

/-- A sub-range of an unchanged range is unchanged. -/
theorem SameOn.mono {b k : Nat} (h : SameOn m m' a n) (hlo : a ≤ b) (hhi : b + k ≤ a + n) :
    SameOn m m' b k :=
  fun i hi hi' => h i (by omega) (by omega)

theorem SameOutside.trans {m'' : Memory} (h : SameOutside m m' a n)
    (h' : SameOutside m' m'' a n) : SameOutside m m'' a n :=
  fun i hi => (h' i hi).trans (h i hi)

theorem SameOutside.mono {b k : Nat} (h : SameOutside m m' b k) (hlo : a ≤ b)
    (hhi : b + k ≤ a + n) : SameOutside m m' a n :=
  fun i hi => h i (by omega)

/-- A range disjoint from the changed one keeps its bytes. -/
theorem SameOutside.sameOn {b k : Nat} (h : SameOutside m m' a n)
    (hdisjoint : b + k ≤ a ∨ a + n ≤ b) : SameOn m m' b k :=
  fun i hi hi' => h i (by omega)

theorem fill_sameOutside (value : UInt8) : SameOutside m (m.fill a n value) a n := by
  intro i hi
  have hout : ¬ (a ≤ i ∧ i < a + n) := by omega
  simp [fill, hout]

theorem fill_apply_mem {value : UInt8} {i : Nat} (hlo : a ≤ i) (hhi : i < a + n) :
    m.fill a n value i = value := by
  simp [fill, hlo, hhi]

theorem setByte_sameOutside (value : UInt8) : SameOutside m (m.setByte a value) a 1 :=
  fill_sameOutside value

@[simp] theorem setByte_apply_same (value : UInt8) : m.setByte a value a = value :=
  fill_apply_mem (Nat.le_refl a) (Nat.lt_succ_self a)

theorem write_sameOutside (bs : List UInt8) :
    SameOutside m (m.write a bs) a bs.length := by
  intro i hi
  have hout : ¬ (a ≤ i ∧ i < a + bs.length) := by omega
  simp [write, hout]

theorem bytes_write_same (bs : List UInt8) : (m.write a bs).bytes a bs.length = bs := by
  apply List.ext_getElem?
  intro i
  by_cases hi : i < bs.length
  · rw [getElem?_bytes hi]
    simp [write, hi]
  · rw [List.getElem?_eq_none (by simpa using hi), List.getElem?_eq_none (by simpa using hi)]

theorem store_sameOutside (value : Nat) : SameOutside m (m.store a w value) a w := by
  simpa [store] using write_sameOutside (m := m) (a := a) (leBytes w value)

theorem load_store_same (value : Nat) : (m.store a w value).load a w = value % 256 ^ w := by
  have hbytes := bytes_write_same (m := m) (a := a) (leBytes w value)
  rw [length_leBytes] at hbytes
  rw [load, store, hbytes, leNat_leBytes]

/-- A stored value is read back when it fits in the field. -/
theorem load_store_of_lt {value : Nat} (h : value < 256 ^ w) :
    (m.store a w value).load a w = value := by
  rw [load_store_same, Nat.mod_eq_of_lt h]

/-- Every byte of a field that was set to zero is zero. -/
theorem store_zero_apply {i : Nat} (hlo : a ≤ i) (hhi : i < a + w) : (m.store a w 0) i = 0 := by
  have hlen : i < a + (List.replicate w (0 : UInt8)).length := by simpa using hhi
  simp only [store, leBytes_zero, write, hlo, hlen, and_self, if_true]
  rw [List.getD_eq_getElem?_getD, List.getElem?_replicate]
  split <;> rfl

end Memory

end ByteMemory
