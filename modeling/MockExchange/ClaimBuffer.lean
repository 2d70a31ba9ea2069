import MockExchange.Publication
import MockExchange.Startup
import Mathlib.Logic.Function.Iterate

/-!
# A whole call of `claim_buffer`

The queue model starts from rings of 64 bytes. Here a queue has any size the
constructor accepts, so lengths are computed as the source computes them, in
`size_t`. One writer calls `claim_buffer` on a queue whose blocks have all been
released, and the readers keep releasing what it commits. How many blocks they
release before each load of `read_offset`, and what they do to the ring's bytes,
is up to their schedule.
-/

namespace MockExchange

open ByteMemory Memory MessageHeader Transition UnpackedReadersAndWriterOffset

/-! ### Reserving -/

/-- `bytes_to_bump` in `size_t` arithmetic. -/
def bytesToBump64 (Q writeOffset totalSizeWithHeader : Nat) : Nat :=
  let bytesRemainingAtEnd := sub64 Q (writeOffset % Q)
  if add64 totalSizeWithHeader sizeofMessageHeader ≤ bytesRemainingAtEnd then totalSizeWithHeader
  else bytesRemainingAtEnd

/-- The test with which `claim_buffer` decides to insert a skip message. -/
def needsSkip64 (Q writeOffset totalMessageLen : Nat) : Bool :=
  let bytesRemainingAtEnd := sub64 Q (writeOffset % Q)
  decide (add64 totalMessageLen sizeofMessageHeader > bytesRemainingAtEnd)

/-- The round of the CAS loop of `wait_for_next_write_offset` that succeeds: the
wrapper and the word it stores. -/
def reserveOffset (Q : Nat) (current : UInt64) (totalSizeWithHeader : Nat) :
    UnpackedReadersAndWriterOffset × UInt64 :=
  let wrapper := unwrap current
  wrapper.returnAddOffset
    (UInt64.ofNat (bytesToBump64 Q wrapper.writeOffset.toNat totalSizeWithHeader))

/-- The checks at the head of `claim_buffer`. -/
@[irreducible] def checkSize (params : IpcQueueParameters) (size : Nat) : Except String Unit :=
  let available := params.queueSize
  if params.isWriter = false ∨ size > sub64 available sizeofMessageHeader then
    .error s!"Message size {size} bytes exceeds the total queue capacity of {available} bytes"
  else if size = 0 then .error "Cannot claim buffer for message with size 0 bytes"
  else .ok ()

/-! ### The bytes of a claim -/

/-- `padding_size`. -/
def paddingSize (Q skipOffset : Nat) : Nat := sub64 (sub64 Q skipOffset) sizeofMessageHeader

/-- The header stores `claim_buffer` and `insert_skip_message` have in common. -/
def storeHeaderFields (m : Memory) (hdr absOffset messageSize : Nat) (type : MessageType)
    (numReaders : Nat) : Memory :=
  let m := setAbsOffset m hdr absOffset
  let m := setMessageSize m hdr messageSize
  let m := setType m hdr type
  setNumReaders m hdr (UInt8.ofNat numReaders)

/-- `insert_skip_message`. The cleared bytes start 18 headers behind the header. -/
def insertSkipMessage (Q : Nat) (m : Memory) (absSkipOffset numReaders : Nat) : Memory :=
  let skipOffset := absSkipOffset % Q
  let padding := paddingSize Q skipOffset
  let m := storeHeaderFields m skipOffset absSkipOffset padding .padding numReaders
  let m := m.fill (skipOffset + sizeofMessageHeader * sizeofMessageHeader) padding 0
  commitBuffer m skipOffset

/-- The bytes an `IpcQueueRaiiWriterWrapper` spans. -/
structure WriterSpan where
  buffer : Nat
  bufferSize : Nat
deriving DecidableEq, Repr

/-! ### The call -/

/-- A block in front of the readers: where its header is, by how much its release
moves `read_offset`, and whether its writer committed it. -/
structure UnreleasedBlock where
  buffer : Nat
  totalMessageLen : Nat
  committed : Bool
deriving DecidableEq, Repr

/-- The queue as a `claim_buffer` call meets it. `unreleased` holds the blocks
that the readers have not released, the oldest first, and `loads` counts the
loads of `read_offset`. `skips` and `wrapped` record history: the number of skip
messages, and whether one of the subtractions that must not wrap around did. -/
structure ClaimState where
  mem : Memory
  readersAndWriteOffset : UInt64
  readOffset : Nat
  unreleased : List UnreleasedBlock
  loads : Nat
  skips : Nat
  wrapped : Bool

/-- What the readers do before the writer's load number `n` of `read_offset`: how
many blocks they release, and what becomes of the ring's bytes. -/
structure ReaderSchedule where
  releases : Nat → Nat
  memory : Nat → Memory → Memory

def ReaderSchedule.KeepsReleasing (readers : ReaderSchedule) : Prop :=
  ∀ n, ∃ k, n ≤ k ∧ 0 < readers.releases k

namespace ClaimState

/-- The last reader of the oldest block releases it, if it is committed. -/
def releaseBlock (s : ClaimState) : ClaimState :=
  match s.unreleased with
  | ⟨_, totalMessageLen, true⟩ :: rest =>
    { s with readOffset := add64 s.readOffset totalMessageLen, unreleased := rest }
  | _ => s

/-- The state the writer loads `read_offset` in. -/
def load (readers : ReaderSchedule) (s : ClaimState) : ClaimState :=
  let released := releaseBlock^[readers.releases s.loads] s
  { released with mem := readers.memory s.loads released.mem, loads := s.loads + 1 }

/-- A round that ends with `insert_skip_message`. -/
def insertSkip (Q : Nat) (s : ClaimState) (wrapper : UnpackedReadersAndWriterOffset) :
    ClaimState :=
  let skipOffset := wrapper.writeOffset.toNat % Q
  let messageSize := paddingSize Q skipOffset % 2 ^ 32
  { s with
    mem := insertSkipMessage Q s.mem wrapper.writeOffset.toNat wrapper.numReaders.toNat
    unreleased := s.unreleased ++ [⟨skipOffset, add64 messageSize sizeofMessageHeader, true⟩]
    skips := s.skips + 1
    wrapped := s.wrapped || decide (Q < skipOffset + sizeofMessageHeader) }

end ClaimState

/-- `must_wait`. -/
def mustWait64 (Q writeOffset slowestReader : Nat) : Bool :=
  decide (Q < sub64 writeOffset slowestReader)

/-- The wait loop, for at most `fuel` loads of `read_offset`. -/
def waitLoop (readers : ReaderSchedule) (Q writeOffset : Nat) :
    Nat → ClaimState → Option ClaimState
  | 0, _ => none
  | fuel + 1, s =>
    let s := s.load readers
    if mustWait64 Q writeOffset s.readOffset then waitLoop readers Q writeOffset fuel s else some s

def waitForNextWriteOffset (readers : ReaderSchedule) (Q fuel : Nat) (s : ClaimState)
    (totalSizeWithHeader : Nat) : Option (UnpackedReadersAndWriterOffset × ClaimState) :=
  let current := s.readersAndWriteOffset
  let (wrapper, desired) := reserveOffset Q current totalSizeWithHeader
  (waitLoop readers Q wrapper.writeOffset.toNat fuel
    { s with readersAndWriteOffset := desired }).map fun s => (unwrap current, s)

/-- `claim_buffer`, for at most `fuel` rounds of as many loads. -/
def claimBuffer (params : IpcQueueParameters) (readers : ReaderSchedule) :
    Nat → ClaimState → Nat → Option (Except String WriterSpan × ClaimState)
  | 0, _, _ => none
  | fuel + 1, s, size =>
    let Q := params.queueSize
    let s := { s with wrapped := s.wrapped || decide (Q < sizeofMessageHeader) }
    match checkSize params size with
    | .error what => some (.error what, s)
    | .ok _ =>
      let totalMessageLen := add64 size sizeofMessageHeader
      (waitForNextWriteOffset readers Q fuel s totalMessageLen).bind fun (wrapper, s) =>
        if needsSkip64 Q wrapper.writeOffset.toNat totalMessageLen then
          claimBuffer params readers fuel (s.insertSkip Q wrapper) size
        else
          let relWriteOffset := wrapper.writeOffset.toNat % Q
          let mem := storeHeaderFields s.mem relWriteOffset wrapper.writeOffset.toNat size .normal
            wrapper.numReaders.toNat
          let block : UnreleasedBlock :=
            ⟨relWriteOffset, add64 (size % 2 ^ 32) sizeofMessageHeader, false⟩
          some (.ok ⟨relWriteOffset, totalMessageLen⟩,
            { s with mem := mem, unreleased := s.unreleased ++ [block] })

/-! ### Reachable offsets -/

/-- The packed word, with the number of bytes reserved so far. -/
structure Offsets where
  readersAndWriteOffset : UInt64
  reservedBytes : Nat
deriving DecidableEq, Repr

namespace Offsets

def init : Offsets := ⟨0, 0⟩

def writeOffset (o : Offsets) : Nat := (unwrap o.readersAndWriteOffset).writeOffset.toNat

def reserve (o : Offsets) (Q size : Nat) : Offsets where
  readersAndWriteOffset :=
    (reserveOffset Q o.readersAndWriteOffset (add64 size sizeofMessageHeader)).2
  reservedBytes :=
    o.reservedBytes + bytesToBump64 Q o.writeOffset (add64 size sizeofMessageHeader)

end Offsets

inductive OffsetAction where
  | join
  | leave
  | reserve (size : Nat)
deriving DecidableEq, Repr

/-- Readers come and go, and writers reserve for messages of accepted sizes. -/
def offsetStep (params : IpcQueueParameters) (o : Offsets) : OffsetAction → Option Offsets
  | .join => some { o with
      readersAndWriteOffset := (unwrap o.readersAndWriteOffset).returnAddReader.2 }
  | .leave => some { o with
      readersAndWriteOffset := (unwrap o.readersAndWriteOffset).returnSubReader.2 }
  | .reserve size =>
    (checkSize params size).toOption.map fun _ => o.reserve params.queueSize size

section

variable {params : IpcQueueParameters} {o o' : Offsets} {size Q : Nat}

/-! ### Lengths that do not wrap around -/

theorem sub64_eq {a b : Nat} (hle : b ≤ a) (ha : a < 2 ^ 64) : sub64 a b = a - b := by
  unfold sub64
  omega

theorem paddingSize_eq {skipOffset : Nat} (hmax : Q ≤ 2 ^ 30)
    (hroom : skipOffset + sizeofMessageHeader ≤ Q) :
    paddingSize Q skipOffset = Q - skipOffset - sizeofMessageHeader := by
  have hremaining : sub64 Q skipOffset = Q - skipOffset := sub64_eq (by omega) (by omega)
  rw [paddingSize, hremaining]
  exact sub64_eq (by omega) (by omega)

theorem IpcQueueParameters.pos (params : IpcQueueParameters) : 0 < params.queueSize := by
  have hpower := params.powerOfTwo
  simp only [isPowerOfTwo, Bool.and_eq_true, bne_iff_ne] at hpower
  exact Nat.pos_of_ne_zero hpower.1

/-- Every accepted queue size divides the range of the write offset. -/
theorem IpcQueueParameters.dvd (params : IpcQueueParameters) : params.queueSize ∣ 2 ^ 56 := by
  have hpower := params.powerOfTwo
  simp only [isPowerOfTwo, Bool.and_eq_true, bne_iff_ne, beq_iff_eq] at hpower
  obtain ⟨k, hk⟩ := Nat.ne_zero_and_sub_one_eq_zero_iff_isPowerOfTwo.mp hpower
  have hmax : params.queueSize ≤ 2 ^ 30 := params.le_max
  rw [hk] at hmax ⊢
  have hexp : k ≤ 30 := (Nat.pow_le_pow_iff_right (by decide)).mp hmax
  exact Nat.pow_dvd_pow 2 (by omega)

theorem checkSize_eq_ok_iff : checkSize params size = .ok () ↔
    params.isWriter = true ∧ 0 < size ∧ size ≤ sub64 params.queueSize sizeofMessageHeader := by
  unfold checkSize
  simp only
  split
  · rename_i hbad
    simp only [reduceCtorEq, false_iff]
    rintro ⟨hwriter, -, hle⟩
    rcases hbad with hreader | hlarge
    · rw [hwriter] at hreader
      cases hreader
    · omega
  · rename_i hgood
    rw [not_or, Bool.not_eq_false] at hgood
    obtain ⟨hwriter, hle⟩ := hgood
    split
    · rename_i hzero
      simp [hzero]
    · rename_i hpos
      simp only [true_iff]
      exact ⟨hwriter, by omega, by omega⟩

/-- In a ring with room for a header an accepted message and its header are not
longer than the ring. -/
theorem size_le_of_checkSize (haccepted : checkSize params size = .ok ())
    (hroom : sizeofMessageHeader ≤ params.queueSize) :
    0 < size ∧ size + sizeofMessageHeader ≤ params.queueSize := by
  obtain ⟨-, hpos, hle⟩ := checkSize_eq_ok_iff.mp haccepted
  have hmax : params.queueSize ≤ 2 ^ 30 := params.le_max
  rw [sub64_eq hroom (by omega)] at hle
  exact ⟨hpos, by omega⟩

/-- A queue and a message for which no length wraps around. -/
structure Lengths (Q size : Nat) : Prop where
  header_le : sizeofMessageHeader ≤ Q
  le_max : Q ≤ 2 ^ 30
  size_le : size + sizeofMessageHeader ≤ Q

theorem Lengths.of_checkSize (haccepted : checkSize params size = .ok ())
    (hroom : sizeofMessageHeader ≤ params.queueSize) : Lengths params.queueSize size :=
  ⟨hroom, params.le_max, (size_le_of_checkSize haccepted hroom).2⟩

namespace Lengths

variable (h : Lengths Q size)

include h

theorem total_eq : add64 size sizeofMessageHeader = size + sizeofMessageHeader := by
  have hsize := h.size_le
  have hmax := h.le_max
  unfold add64
  omega

theorem total_add_eq : add64 (size + sizeofMessageHeader) sizeofMessageHeader = size + 36 := by
  have hsize := h.size_le
  have hmax := h.le_max
  unfold add64 sizeofMessageHeader
  omega

theorem mod_lt (w : Nat) : w % Q < Q :=
  Nat.mod_lt w (Nat.lt_of_lt_of_le (by decide) h.header_le)

theorem remaining_eq (w : Nat) : sub64 Q (w % Q) = Q - w % Q := by
  have hlt := h.mod_lt w
  have hmax := h.le_max
  exact sub64_eq (by omega) (by omega)

theorem needsSkip64_eq (w : Nat) :
    needsSkip64 Q w (add64 size sizeofMessageHeader) = needsSkip Q w size := by
  have htotal : size + sizeofMessageHeader + sizeofMessageHeader = size + 36 := by
    unfold sizeofMessageHeader
    omega
  simp only [needsSkip64, h.total_eq, h.total_add_eq, h.remaining_eq, needsSkip, htotal]

/-- The reservation rule without `size_t` is that of the queue model. -/
theorem bytesToBump64_eq (w : Nat) :
    bytesToBump64 Q w (add64 size sizeofMessageHeader) = bytesToBump Q w (size + 18) := by
  rw [h.total_eq]
  simp only [bytesToBump64, h.total_add_eq, h.remaining_eq, bytesToBump_eq]

theorem bytesToBump_le (w : Nat) : bytesToBump Q w (size + 18) ≤ Q := by
  have hsize := h.size_le
  have hlt := h.mod_lt w
  rw [bytesToBump_eq]
  split <;> omega

end Lengths

/-! ### The offsets a queue reaches -/

/-- The word that `return_add_offset` stores. -/
theorem writeOffset_returnAddOffset (wrapper : UnpackedReadersAndWriterOffset) (n : Nat) :
    (unwrap (wrapper.returnAddOffset (UInt64.ofNat n)).2).writeOffset.toNat =
      (wrapper.writeOffset.toNat + n) % 2 ^ 56 := by
  simp only [returnAddOffset, unwrap_pack_writeOffset, UInt64.toNat_add, UInt64.toNat_ofNat']
  omega

/-- A word with another reader count has the same write offset. -/
theorem writeOffset_pack_unwrap (numReaders current : UInt64) :
    (unwrap (pack numReaders (unwrap current).writeOffset)).writeOffset.toNat =
      (unwrap current).writeOffset.toNat := by
  have hlt := current.toNat_lt
  rw [unwrap_pack_writeOffset, unwrap_writeOffset_toNat]
  omega

theorem Offsets.writeOffset_reserve (o : Offsets) (Q size : Nat) :
    (o.reserve Q size).writeOffset =
      (o.writeOffset + bytesToBump64 Q o.writeOffset (add64 size sizeofMessageHeader)) %
        2 ^ 56 :=
  writeOffset_returnAddOffset _ _

/-- The write offset follows the bytes reserved, and a header fits behind it. -/
structure Offsets.Inv (params : IpcQueueParameters) (o : Offsets) : Prop where
  writeOffset : o.writeOffset = o.reservedBytes % 2 ^ 56
  room : sizeofMessageHeader ≤ params.queueSize →
    o.reservedBytes % params.queueSize + sizeofMessageHeader ≤ params.queueSize

theorem Offsets.Inv.init : Offsets.init.Inv params := by
  constructor
  · rfl
  · intro hroom
    simpa [Offsets.init] using hroom

/-- The write offset and the bytes reserved are at the same place of the ring. -/
theorem Offsets.Inv.mod_eq (h : o.Inv params) :
    o.writeOffset % params.queueSize = o.reservedBytes % params.queueSize := by
  rw [h.writeOffset, Nat.mod_mod_of_dvd _ params.dvd]

/-- A header fits behind every reservation. -/
theorem Lengths.room_add (h : Lengths Q size) (w : Nat)
    (hroom : w % Q + sizeofMessageHeader ≤ Q) :
    (w + bytesToBump Q w (size + 18)) % Q + sizeofMessageHeader ≤ Q := by
  have hlt := h.mod_lt w
  have hheader := h.header_le
  unfold sizeofMessageHeader at hroom hheader ⊢
  rw [bytesToBump_eq, ← Nat.mod_add_mod]
  split
  · rw [Nat.mod_eq_of_lt (by omega)]
    omega
  · have hlap : w % Q + (Q - w % Q) = Q := by omega
    rw [hlap, Nat.mod_self]
    omega

theorem Offsets.Inv.congr (h : o.Inv params) (hoffset : o'.writeOffset = o.writeOffset)
    (hbytes : o'.reservedBytes = o.reservedBytes) : o'.Inv params := by
  constructor
  · rw [hoffset, hbytes]
    exact h.writeOffset
  · rw [hbytes]
    exact h.room

theorem Offsets.Inv.reserve (h : o.Inv params) (haccepted : checkSize params size = .ok ()) :
    (o.reserve params.queueSize size).Inv params := by
  constructor
  · rw [Offsets.writeOffset_reserve, h.writeOffset]
    simp only [Offsets.reserve, h.writeOffset]
    omega
  · intro hroom
    have hlengths := Lengths.of_checkSize haccepted hroom
    have hbump : bytesToBump params.queueSize o.writeOffset (size + 18) =
        bytesToBump params.queueSize o.reservedBytes (size + 18) := by
      simp only [bytesToBump_eq, h.mod_eq]
    simp only [Offsets.reserve, hlengths.bytesToBump64_eq, hbump]
    exact hlengths.room_add o.reservedBytes (h.room hroom)

theorem Offsets.Inv.step {a : OffsetAction} (h : o.Inv params)
    (hstep : offsetStep params o a = some o') : o'.Inv params := by
  cases a with
  | join =>
    cases hstep
    exact h.congr (writeOffset_pack_unwrap _ _) rfl
  | leave =>
    cases hstep
    exact h.congr (writeOffset_pack_unwrap _ _) rfl
  | reserve size =>
    cases haccepted : checkSize params size with
    | ok _ =>
      simp only [offsetStep, haccepted, Except.toOption, Option.map_some] at hstep
      cases hstep
      exact h.reserve haccepted
    | error what =>
      simp only [offsetStep, haccepted, Except.toOption, Option.map_none, reduceCtorEq] at hstep

theorem Offsets.Inv.of_reach
    (hreach : Reach (offsetStep params) (fun _ _ => True) Offsets.init o) : o.Inv params := by
  refine hreach.invariant (P := fun o => o.Inv params) .init ?_
  intro o a o' h _ hstep
  exact h.step hstep

/-- In a ring the queue model covers, its reservation stores the same word. -/
theorem reserveOffset_eq_reserve (Q : RingSize) (s : State) (data : List UInt8)
    (hsize : size + sizeofMessageHeader ≤ Q.bytes) :
    (reserveOffset Q.bytes s.readersAndWriteOffset (add64 size sizeofMessageHeader)).2 =
      (reserve Q s size data).readersAndWriteOffset := by
  have hlengths : Lengths Q.bytes size := ⟨by omega, Q.le_pow, hsize⟩
  have hbump := hlengths.bytesToBump64_eq (unwrap s.readersAndWriteOffset).writeOffset.toNat
  rw [reserveOffset, hbump]
  rfl

end

end MockExchange
