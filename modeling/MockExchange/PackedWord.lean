import Mathlib.Data.UInt
import Mathlib.Tactic.Ring

/-!
# The packed word of readers and write offset

`IpcQueue::UnpackedReadersAndWriterOffset` keeps the number of readers in bits
0-7 of one 64-bit word and the write offset in bits 8-63. The wrapper's copies
of the two fields are wider than the fields themselves. `Packs v n w` is the
refinement this module proves the operations keep: the word `v` stands for `n`
readers and the write offset `w`.
-/

namespace MockExchange

/-- `IpcQueue::UnpackedReadersAndWriterOffset`. -/
structure UnpackedReadersAndWriterOffset where
  numReaders : UInt64
  writeOffset : UInt64
  originalValue : UInt64
deriving DecidableEq, Repr

namespace UnpackedReadersAndWriterOffset

def unwrap (value : UInt64) : UnpackedReadersAndWriterOffset where
  originalValue := value
  numReaders := value &&& 0x00000000000000FF
  writeOffset := (value >>> 8) &&& 0x00FFFFFFFFFFFFFF

/-- The expression every `return_*` method ends with. -/
def pack (numReaders writeOffset : UInt64) : UInt64 :=
  (numReaders &&& (0x00000000000000FF : UInt64)) |||
    ((writeOffset <<< (8 : UInt64)) &&& (0xFFFFFFFFFFFFFF00 : UInt64))

/-- `return_add_reader`: the mutated wrapper and the word it returns. -/
def returnAddReader (wrapper : UnpackedReadersAndWriterOffset) :
    UnpackedReadersAndWriterOffset × UInt64 :=
  let wrapper := { wrapper with numReaders := wrapper.numReaders + 1 }
  (wrapper, pack wrapper.numReaders wrapper.writeOffset)

/-- `return_sub_reader`. -/
def returnSubReader (wrapper : UnpackedReadersAndWriterOffset) :
    UnpackedReadersAndWriterOffset × UInt64 :=
  let wrapper := { wrapper with numReaders := wrapper.numReaders - 1 }
  (wrapper, pack wrapper.numReaders wrapper.writeOffset)

/-- `return_add_offset`. -/
def returnAddOffset (wrapper : UnpackedReadersAndWriterOffset) (messageSize : UInt64) :
    UnpackedReadersAndWriterOffset × UInt64 :=
  let wrapper := { wrapper with writeOffset := wrapper.writeOffset + messageSize }
  (wrapper, pack wrapper.numReaders wrapper.writeOffset)

end UnpackedReadersAndWriterOffset

open UnpackedReadersAndWriterOffset

/-- The word `v` stands for `n` readers and the write offset `w`. -/
structure Packs (v : UInt64) (n w : Nat) : Prop where
  value : v.toNat = n + 256 * w
  readers_lt : n < 256
  offset_lt : w < 2 ^ 56

namespace UnpackedReadersAndWriterOffset

theorem unwrap_numReaders_toNat (v : UInt64) : (unwrap v).numReaders.toNat = v.toNat % 256 := by
  simp only [unwrap, UInt64.toNat_and]
  exact Nat.and_two_pow_sub_one_eq_mod v.toNat 8

theorem unwrap_writeOffset_toNat (v : UInt64) :
    (unwrap v).writeOffset.toNat = v.toNat / 256 := by
  have hlt : v.toNat < 2 ^ 64 := v.toNat_lt
  have hshift : (v >>> 8).toNat = v.toNat / 256 := by
    simp [UInt64.toNat_shiftRight, Nat.shiftRight_eq_div_pow]
  have hmask : (v >>> 8).toNat &&& (2 ^ 56 - 1) = (v >>> 8).toNat % 2 ^ 56 :=
    Nat.and_two_pow_sub_one_eq_mod _ 56
  simp only [unwrap, UInt64.toNat_and]
  calc (v >>> 8).toNat &&& (2 ^ 56 - 1) = (v >>> 8).toNat % 2 ^ 56 := hmask
    _ = v.toNat / 256 := by rw [hshift]; omega

/-- Both fields of the packed word, each cut to its width. -/
theorem pack_toNat (n w : UInt64) :
    (pack n w).toNat = n.toNat % 256 + 256 * (w.toNat % 2 ^ 56) := by
  have hlow : (n &&& 0x00000000000000FF).toNat = n.toNat % 256 :=
    (UInt64.toNat_and n _).trans (Nat.and_two_pow_sub_one_eq_mod n.toNat 8)
  have hshift : (w <<< 8).toNat = (w.toNat % 2 ^ 56) <<< 8 := by
    have h8 : (w <<< 8).toNat = w.toNat <<< 8 % 2 ^ 64 := by simp [UInt64.toNat_shiftLeft]
    rw [h8, Nat.shiftLeft_eq, Nat.shiftLeft_eq]
    omega
  have hhigh : ((w <<< 8) &&& 0xFFFFFFFFFFFFFF00).toNat = 2 ^ 8 * (w.toNat % 2 ^ 56) := by
    have hmask : (0xFFFFFFFFFFFFFF00 : UInt64).toNat = (2 ^ 56 - 1) <<< 8 := rfl
    rw [UInt64.toNat_and, hshift, hmask, ← Nat.shiftLeft_and_distrib,
      Nat.and_two_pow_sub_one_eq_mod, Nat.mod_mod, Nat.shiftLeft_eq, Nat.mul_comm]
  have hor : 2 ^ 8 * (w.toNat % 2 ^ 56) + n.toNat % 256 =
      2 ^ 8 * (w.toNat % 2 ^ 56) ||| n.toNat % 256 :=
    Nat.two_pow_add_eq_or_of_lt (Nat.mod_lt n.toNat (by decide)) _
  simp only [pack, UInt64.toNat_or, hlow, hhigh]
  rw [Nat.or_comm, ← hor]
  omega

/-- Unwrapping what was packed gives both numbers back, each cut to its width. -/
theorem unwrap_pack_numReaders (n w : UInt64) :
    (unwrap (pack n w)).numReaders.toNat = n.toNat % 256 := by
  rw [unwrap_numReaders_toNat, pack_toNat]
  omega

theorem unwrap_pack_writeOffset (n w : UInt64) :
    (unwrap (pack n w)).writeOffset.toNat = w.toNat % 2 ^ 56 := by
  rw [unwrap_writeOffset_toNat, pack_toNat]
  omega

/-! Without a bound on the readers the low byte still counts modulo 256. -/

theorem returnAddReader_mod (v : UInt64) :
    (unwrap v).returnAddReader.2.toNat % 256 = (v.toNat + 1) % 256 := by
  have hsum : ((unwrap v).numReaders + 1).toNat = (v.toNat % 256 + 1) % 2 ^ 64 := by
    rw [UInt64.toNat_add, unwrap_numReaders_toNat]
    rfl
  change (pack ((unwrap v).numReaders + 1) _).toNat % 256 = _
  rw [pack_toNat, hsum]
  omega

theorem returnSubReader_mod (v : UInt64) :
    (unwrap v).returnSubReader.2.toNat % 256 = (v.toNat + 255) % 256 := by
  have hdiff : ((unwrap v).numReaders - 1).toNat = (2 ^ 64 - 1 + v.toNat % 256) % 2 ^ 64 := by
    rw [UInt64.toNat_sub, unwrap_numReaders_toNat]
    rfl
  change (pack ((unwrap v).numReaders - 1) _).toNat % 256 = _
  rw [pack_toNat, hdiff]
  omega

theorem returnAddOffset_mod (v k : UInt64) :
    ((unwrap v).returnAddOffset k).2.toNat % 256 = v.toNat % 256 := by
  change (pack (unwrap v).numReaders _).toNat % 256 = _
  rw [pack_toNat, unwrap_numReaders_toNat]
  omega

end UnpackedReadersAndWriterOffset

namespace Packs

variable {v : UInt64} {n w : Nat}

theorem zero : Packs 0 0 0 := ⟨rfl, by decide, by decide⟩

theorem numReaders (h : Packs v n w) : (unwrap v).numReaders.toNat = n := by
  have hv := h.value
  have hn := h.readers_lt
  rw [unwrap_numReaders_toNat]
  omega

theorem writeOffset (h : Packs v n w) : (unwrap v).writeOffset.toNat = w := by
  have hv := h.value
  have hn := h.readers_lt
  rw [unwrap_writeOffset_toNat]
  omega

/-- Packing two numbers that fit their fields gives a word that stands for them. -/
theorem of_pack {a b : UInt64} (hn : a.toNat = n) (hw : b.toNat = w) (hn' : n < 256)
    (hw' : w < 2 ^ 56) : Packs (pack a b) n w := by
  refine ⟨?_, hn', hw'⟩
  rw [pack_toNat, hn, hw, Nat.mod_eq_of_lt hn', Nat.mod_eq_of_lt hw']

/-- A join adds one reader and leaves the offset. -/
theorem returnAddReader (h : Packs v n w) (hn : n + 1 < 256) :
    Packs (unwrap v).returnAddReader.2 (n + 1) w := by
  refine of_pack ?_ h.writeOffset hn h.offset_lt
  rw [UInt64.toNat_add, h.numReaders]
  exact Nat.mod_eq_of_lt (by change n + 1 < 2 ^ 64; omega)

/-- A leave removes one reader and leaves the offset. -/
theorem returnSubReader (h : Packs v n w) (hn : 0 < n) :
    Packs (unwrap v).returnSubReader.2 (n - 1) w := by
  have hlt := h.readers_lt
  refine of_pack ?_ h.writeOffset (by omega) h.offset_lt
  have hle : (1 : UInt64) ≤ (unwrap v).numReaders := by
    rw [UInt64.le_iff_toNat_le, h.numReaders]
    exact hn
  rw [UInt64.toNat_sub_of_le _ _ hle, h.numReaders]
  rfl

/-- A reservation advances the offset, modulo its field, and leaves the readers. -/
theorem returnAddOffset_mod (h : Packs v n w) (k : UInt64) :
    Packs ((unwrap v).returnAddOffset k).2 n ((w + k.toNat) % 2 ^ 56) := by
  refine ⟨?_, h.readers_lt, Nat.mod_lt _ (by decide)⟩
  have hoffset : ((unwrap v).writeOffset + k).toNat % 2 ^ 56 = (w + k.toNat) % 2 ^ 56 := by
    rw [UInt64.toNat_add, h.writeOffset]
    exact Nat.mod_mod_of_dvd _ (by decide)
  change (pack (unwrap v).numReaders ((unwrap v).writeOffset + k)).toNat = _
  rw [pack_toNat, h.numReaders, Nat.mod_eq_of_lt h.readers_lt, hoffset]

theorem returnAddOffset (h : Packs v n w) {k : UInt64} (hk : w + k.toNat < 2 ^ 56) :
    Packs ((unwrap v).returnAddOffset k).2 n (w + k.toNat) := by
  have hmod := h.returnAddOffset_mod k
  rwa [Nat.mod_eq_of_lt hk] at hmod

end Packs

end MockExchange
