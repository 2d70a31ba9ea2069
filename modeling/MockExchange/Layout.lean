import MockExchange.Lib.ByteMemory
import MockExchange.Lib.Tiling

/-!
# Message headers and block geometry

The ring is the `available_queue_size_bytes` bytes after the global header. An
address is the distance from its first byte, so addresses from the queue size
on are the bytes past the ring's end. `#pragma pack(push, 1)` puts the fields of
`MessageHeader` at 0 (`abs_offset`, 8 bytes), 8 (`message_size`, 4), 12 (`type`,
4), 16 (`num_readers`, 1) and 17 (`commit_flag`, 1): 18 bytes in all.
-/

namespace MockExchange

open ByteMemory

/-- `IpcQueue::MAX_QUEUE_SIZE_BYTES`. -/
def MAX_QUEUE_SIZE_BYTES : Nat := 1024 * 1024 * 1024

/-- `sizeof(MessageHeader)`. -/
abbrev sizeofMessageHeader : Nat := 18

/-- `IpcQueue::is_power_of_two`. -/
def isPowerOfTwo (n : Nat) : Bool := n != 0 && (n &&& (n - 1)) == 0

/-- A queue size the constructor accepts, with room for the smallest rings the
queue is used with. -/
structure RingSize where
  bytes : Nat
  powerOfTwo : isPowerOfTwo bytes = true
  le_max : bytes ≤ MAX_QUEUE_SIZE_BYTES
  ge_64 : 64 ≤ bytes

theorem RingSize.le_pow (Q : RingSize) : Q.bytes ≤ 2 ^ 30 := Q.le_max

def RingSize.smallest : RingSize := ⟨64, by decide, by decide, by decide⟩

def RingSize.of512 : RingSize := ⟨512, by decide, by decide, by decide⟩

inductive CommitFlag where
  | notReady
  | readyForConsumer
  | aborted
deriving DecidableEq, Repr

def CommitFlag.toByte : CommitFlag → UInt8
  | .notReady => 0
  | .readyForConsumer => 1
  | .aborted => 2

inductive MessageType where
  | normal
  | padding
deriving DecidableEq, Repr

def MessageType.toNat : MessageType → Nat
  | .normal => 0
  | .padding => 1

/-! ### The fields of a header -/

namespace MessageHeader

variable (m : Memory) (hdr : Nat)

def absOffset : Nat := m.load hdr 8
def messageSize : Nat := m.load (hdr + 8) 4
def type : Nat := m.load (hdr + 12) 4
def numReaders : UInt8 := m (hdr + 16)
def commitFlag : UInt8 := m (hdr + 17)

def setAbsOffset (value : Nat) : Memory := m.store hdr 8 value
def setMessageSize (value : Nat) : Memory := m.store (hdr + 8) 4 value
def setType (value : MessageType) : Memory := m.store (hdr + 12) 4 value.toNat
def setNumReaders (value : UInt8) : Memory := m.setByte (hdr + 16) value
def setCommitFlag (value : CommitFlag) : Memory := m.setByte (hdr + 17) value.toByte

/-- The bytes after the header, as many as `size`. -/
def payload (size : Nat) : List UInt8 := m.bytes (hdr + sizeofMessageHeader) size

variable {m hdr} {m' : Memory}

open Memory

theorem absOffset_congr (h : SameOn m m' hdr 8) : absOffset m' hdr = absOffset m hdr :=
  load_congr h

theorem messageSize_congr (h : SameOn m m' (hdr + 8) 4) :
    messageSize m' hdr = messageSize m hdr :=
  load_congr h

theorem type_congr (h : SameOn m m' (hdr + 12) 4) : type m' hdr = type m hdr :=
  load_congr h

theorem numReaders_congr (h : SameOn m m' (hdr + 16) 1) : numReaders m' hdr = numReaders m hdr :=
  h _ (Nat.le_refl _) (Nat.lt_succ_self _)

theorem commitFlag_congr (h : SameOn m m' (hdr + 17) 1) : commitFlag m' hdr = commitFlag m hdr :=
  h _ (Nat.le_refl _) (Nat.lt_succ_self _)

theorem payload_congr {size : Nat} (h : SameOn m m' (hdr + 18) size) :
    payload m' hdr size = payload m hdr size :=
  bytes_congr h

theorem setAbsOffset_sameOutside (m : Memory) (hdr : Nat) (value : Nat) :
    SameOutside m (setAbsOffset m hdr value) hdr 8 :=
  store_sameOutside value

theorem setMessageSize_sameOutside (m : Memory) (hdr : Nat) (value : Nat) :
    SameOutside m (setMessageSize m hdr value) (hdr + 8) 4 :=
  store_sameOutside value

theorem setType_sameOutside (m : Memory) (hdr : Nat) (value : MessageType) :
    SameOutside m (setType m hdr value) (hdr + 12) 4 :=
  store_sameOutside value.toNat

theorem setNumReaders_sameOutside (m : Memory) (hdr : Nat) (value : UInt8) :
    SameOutside m (setNumReaders m hdr value) (hdr + 16) 1 :=
  setByte_sameOutside value

theorem setCommitFlag_sameOutside (m : Memory) (hdr : Nat) (value : CommitFlag) :
    SameOutside m (setCommitFlag m hdr value) (hdr + 17) 1 :=
  setByte_sameOutside value.toByte

theorem absOffset_set {value : Nat} (h : value < 2 ^ 64) :
    absOffset (setAbsOffset m hdr value) hdr = value :=
  load_store_of_lt h

theorem messageSize_set {value : Nat} (h : value < 2 ^ 32) :
    messageSize (setMessageSize m hdr value) hdr = value :=
  load_store_of_lt h

theorem type_set (value : MessageType) : type (setType m hdr value) hdr = value.toNat :=
  load_store_of_lt (by cases value <;> decide)

@[simp] theorem numReaders_set (value : UInt8) :
    numReaders (setNumReaders m hdr value) hdr = value :=
  setByte_apply_same value

@[simp] theorem commitFlag_set (value : CommitFlag) :
    commitFlag (setCommitFlag m hdr value) hdr = value.toByte :=
  setByte_apply_same value.toByte

end MessageHeader

/-! ### Where a reservation ends -/

/-- `bytes_to_bump` in the reservation loop of `wait_for_next_write_offset`. -/
def bytesToBump (Q writeOffset totalSizeWithHeader : Nat) : Nat :=
  let bytesRemainingAtEnd := Q - writeOffset % Q
  if totalSizeWithHeader + sizeofMessageHeader ≤ bytesRemainingAtEnd then totalSizeWithHeader
  else bytesRemainingAtEnd

/-- The test with which `claim_buffer` decides to insert a skip message. -/
def needsSkip (Q writeOffset size : Nat) : Bool :=
  let totalMessageLen := size + sizeofMessageHeader
  let bytesRemainingAtEnd := Q - writeOffset % Q
  decide (totalMessageLen + sizeofMessageHeader > bytesRemainingAtEnd)

theorem bytesToBump_eq (Q writeOffset total : Nat) :
    bytesToBump Q writeOffset total =
      if total + 18 ≤ Q - writeOffset % Q then total else Q - writeOffset % Q := rfl

theorem needsSkip_iff {Q writeOffset size : Nat} :
    needsSkip Q writeOffset size = true ↔ Q - writeOffset % Q < size + 18 + 18 := by
  simp only [needsSkip, decide_eq_true_eq]

/-- A reservation: the range its CAS took out of the stream, the payload size
`claim_buffer` was called with, the reader count the CAS observed, and the
bytes its writer is going to write. -/
structure Block where
  offset : Nat
  length : Nat
  size : Nat
  numReaders : Nat
  data : List UInt8
deriving DecidableEq, Repr

namespace Block

variable (Q : RingSize) (b : Block)

def finish : Nat := b.offset + b.length

/-- `rel_write_offset`: where the block's header is in the ring. -/
def hdr : Nat := b.offset % Q.bytes

def isPadding : Bool := needsSkip Q.bytes b.offset b.size

/-- `padding_size` of `insert_skip_message` for a skip message, and the size
that was asked for otherwise. -/
def messageSize : Nat :=
  if b.isPadding Q then Q.bytes - b.hdr Q - sizeofMessageHeader else b.size

def type : MessageType := if b.isPadding Q then .padding else .normal

/-- A block as the reservation loop makes it, at a place with room for a header. -/
structure Shape : Prop where
  size_pos : 1 ≤ b.size
  size_le : b.size ≤ Q.bytes - 18
  data_le : b.data.length ≤ b.size
  length_eq : b.length = bytesToBump Q.bytes b.offset (b.size + 18)
  room : b.hdr Q + 18 ≤ Q.bytes

namespace Shape

variable {Q b}

/-- A block is a message with room for one more header behind it, or it is a
skip message that runs to the end of the ring. -/
theorem cases (h : b.Shape Q) :
    (b.isPadding Q = false ∧ b.length = b.size + 18 ∧ b.hdr Q + b.length + 18 ≤ Q.bytes) ∨
      (b.isPadding Q = true ∧ b.hdr Q + b.length = Q.bytes ∧
        Q.bytes < b.hdr Q + b.size + 36) := by
  have hlen := h.length_eq
  have hroom := h.room
  have hskip := @needsSkip_iff Q.bytes b.offset b.size
  rw [bytesToBump_eq] at hlen
  simp only [hdr] at hroom ⊢
  cases hpad : b.isPadding Q with
  | false =>
    have hfit : ¬ Q.bytes - b.offset % Q.bytes < b.size + 18 + 18 := by
      rw [← hskip]
      simpa [isPadding] using hpad
    rw [if_pos (by omega)] at hlen
    exact Or.inl ⟨rfl, hlen, by omega⟩
  | true =>
    have hfit := hskip.mp hpad
    rw [if_neg (by omega)] at hlen
    exact Or.inr ⟨rfl, by omega, by omega⟩

theorem fits (h : b.Shape Q) : b.hdr Q + b.length ≤ Q.bytes := by
  rcases h.cases with ⟨-, -, hfit⟩ | ⟨-, hfit, -⟩
  · omega
  · omega

theorem length_ge (h : b.Shape Q) : 18 ≤ b.length := by
  have hroom := h.room
  rcases h.cases with ⟨-, hlen, -⟩ | ⟨-, hfit, -⟩
  · omega
  · omega

/-- The size a header carries is the block's length without the header. -/
theorem messageSize_add (h : b.Shape Q) : b.messageSize Q + 18 = b.length := by
  have hroom := h.room
  rcases h.cases with ⟨hpad, hlen, -⟩ | ⟨hpad, hfit, -⟩
  · simp [messageSize, hpad, hlen]
  · simp only [messageSize, hpad, if_true, sizeofMessageHeader]
    omega

theorem messageSize_lt (h : b.Shape Q) : b.messageSize Q < 2 ^ 32 := by
  have hadd := h.messageSize_add
  have hfits := h.fits
  have hQ := Q.le_pow
  omega

/-- The next reservation also starts where a header fits. -/
theorem room_finish (h : b.Shape Q) : b.finish % Q.bytes + 18 ≤ Q.bytes := by
  have hQ := Q.ge_64
  have hlt : b.hdr Q < Q.bytes := Nat.mod_lt _ (by omega)
  rcases h.cases with ⟨-, hlen, hfit⟩ | ⟨-, hfit, -⟩
  · have hmod : b.finish % Q.bytes = b.hdr Q + b.length := by
      rw [finish, ← Nat.mod_add_mod]
      exact Nat.mod_eq_of_lt (by change b.hdr Q + b.length < _; omega)
    omega
  · have hmod : b.finish % Q.bytes = 0 := by
      rw [finish, ← Nat.mod_add_mod]
      change (b.hdr Q + b.length) % Q.bytes = 0
      rw [hfit, Nat.mod_self]
    omega

theorem hdr_lt (h : b.Shape Q) : b.hdr Q < Q.bytes := by
  have := h.room
  omega

end Shape

/-- Two blocks of one window of `Q` offsets occupy disjoint bytes of the ring. -/
theorem ring_disjoint {Q : RingSize} {b c : Block} {r : Nat} (hb : r ≤ b.offset)
    (hb' : b.finish ≤ r + Q.bytes) (hc : r ≤ c.offset) (hc' : c.finish ≤ r + Q.bytes)
    (h : b.finish ≤ c.offset ∨ c.finish ≤ b.offset) :
    b.hdr Q + b.length ≤ c.hdr Q ∨ c.hdr Q + c.length ≤ b.hdr Q := by
  rcases h with h | h
  · exact Tiling.ring_disjoint hb h hc'
  · exact (Tiling.ring_disjoint hc h hb').symm

end Block

end MockExchange
