import MockExchange.ClaimBuffer
import MockExchange.Service

/-!
# What the writers of a reservation touch

A writer writes through byte pointers, through a `MessageHeader*` and through the
span of its wrapper. All of them stay inside the reservation except for the
clearing of a skip message's padding, which starts 18 headers behind the header
and so runs past the end of the ring whenever there is padding to clear.
-/

namespace MockExchange

open ByteMemory Memory MessageHeader Transition

/-! ### The wrapper -/

namespace WriterSpan

/-- The assertion of `write_to_buffer`. -/
def Fits (span : WriterSpan) (data : List UInt8) : Prop :=
  data.length + sizeofMessageHeader ≤ span.bufferSize

/-- `write_to_buffer`, which commits. -/
def writeToBuffer (m : Memory) (span : WriterSpan) (data : List UInt8) : Memory :=
  commitBuffer (m.write (span.buffer + sizeofMessageHeader) data) span.buffer

/-- `abort`, which clears as many bytes as the header says. -/
def abort (m : Memory) (span : WriterSpan) : Memory :=
  let cleared := m.fill (span.buffer + sizeofMessageHeader) (messageSize m span.buffer) 0
  setCommitFlag cleared span.buffer .aborted

end WriterSpan

/-- The span `claim_buffer` returns for a message at `writeOffset`. -/
def messageSpan (Q writeOffset size : Nat) : WriterSpan :=
  ⟨writeOffset % Q, add64 size sizeofMessageHeader⟩

/-! ### The writing paths -/

/-- The writes for a message: its header and what its wrapper is used for. An
abort finds the size that the claim stored. -/
inductive MessageWrites (Q w numReaders size : Nat) : Memory → Memory → Prop where
  | header (m : Memory) : MessageWrites Q w numReaders size m
      (storeHeaderFields m (w % Q) w size .normal numReaders)
  | writeToBuffer (m : Memory) (data : List UInt8) (hdata : (messageSpan Q w size).Fits data) :
      MessageWrites Q w numReaders size m ((messageSpan Q w size).writeToBuffer m data)
  | commit (m : Memory) :
      MessageWrites Q w numReaders size m (commitBuffer m (messageSpan Q w size).buffer)
  | abort (m : Memory) (hsize : messageSize m (messageSpan Q w size).buffer = size % 2 ^ 32) :
      MessageWrites Q w numReaders size m ((messageSpan Q w size).abort m)

/-- The writes for the reservation at `w` of a call with `size`. -/
def ReservationWrites (Q w numReaders size : Nat) (m m' : Memory) : Prop :=
  if needsSkip64 Q w (add64 size sizeofMessageHeader) then m' = insertSkipMessage Q m w numReaders
  else MessageWrites Q w numReaders size m m'

/-- Only bytes of the reservation `[w, e)` change, and none past the ring's end. -/
def TouchesOnly (Q w e : Nat) (m m' : Memory) : Prop :=
  ∀ a, m' a ≠ m a → w % Q ≤ a ∧ a < w % Q + (e - w) ∧ a < Q

section

variable {params : IpcQueueParameters} {Q w numReaders size : Nat} {m m' : Memory}

theorem TouchesOnly.of_sameOutside {e : Nat} (h : SameOutside m m' (w % Q) (e - w))
    (hend : w % Q + (e - w) ≤ Q) : TouchesOnly Q w e m m' := by
  intro a hchanged
  by_contra hnot
  exact hchanged (h a (by omega))

/-! ### Headers -/

theorem storeHeaderFields_sameOutside (m : Memory) (hdr absOffset messageSize : Nat)
    (type : MessageType) (numReaders : Nat) :
    SameOutside m (storeHeaderFields m hdr absOffset messageSize type numReaders) hdr 18 := by
  unfold storeHeaderFields
  refine (setAbsOffset_sameOutside m hdr absOffset).mono (by omega) (by omega) |>.trans ?_
  refine (setMessageSize_sameOutside _ hdr messageSize).mono (by omega) (by omega) |>.trans ?_
  refine (setType_sameOutside _ hdr type).mono (by omega) (by omega) |>.trans ?_
  exact (setNumReaders_sameOutside _ hdr _).mono (by omega) (by omega)

theorem commitBuffer_sameOutside (m : Memory) (hdr : Nat) :
    SameOutside m (commitBuffer m hdr) hdr 18 :=
  (setCommitFlag_sameOutside m hdr .readyForConsumer).mono (by omega) (by omega)

theorem commitBuffer_apply_flag (m : Memory) (hdr : Nat) : commitBuffer m hdr (hdr + 17) = 1 :=
  MessageHeader.commitFlag_set .readyForConsumer

/-! ### Messages -/

/-- Every write for a message stays inside a reservation of `size + 18` bytes. -/
theorem MessageWrites.sameOutside (h : MessageWrites Q w numReaders size m m')
    (hlengths : Lengths Q size) : SameOutside m m' (w % Q) (size + 18) := by
  have hsize : (messageSpan Q w size).bufferSize = size + 18 := hlengths.total_eq
  have hle : size + 18 ≤ Q := hlengths.size_le
  have hmax := hlengths.le_max
  cases h with
  | header => exact (storeHeaderFields_sameOutside m _ _ _ _ _).mono (by omega) (by omega)
  | writeToBuffer data hdata =>
    have hlen : data.length + 18 ≤ size + 18 := hsize ▸ hdata
    refine SameOutside.trans ?_ ((commitBuffer_sameOutside _ _).mono ?_ ?_)
    · exact (write_sameOutside data).mono (Nat.le_add_right _ _) (by
        change w % Q + 18 + data.length ≤ _
        omega)
    · exact Nat.le_refl _
    · change w % Q + 18 ≤ _
      omega
  | commit =>
    refine (commitBuffer_sameOutside m _).mono (Nat.le_refl _) ?_
    change w % Q + 18 ≤ _
    omega
  | abort hstored =>
    have hstored' : messageSize m (w % Q) = size := by
      rw [← Nat.mod_eq_of_lt (show size < 2 ^ 32 by omega)]
      exact hstored
    have hfill : SameOutside m (m.fill (w % Q + 18) (messageSize m (w % Q)) 0) (w % Q)
        (size + 18) := (fill_sameOutside 0).mono (by omega) (by omega)
    exact hfill.trans ((setCommitFlag_sameOutside _ (w % Q) .aborted).mono (by omega) (by omega))

/-! ### Skip messages -/

theorem insertSkipMessage_apply_flag (Q : Nat) (m : Memory) (w numReaders : Nat) :
    insertSkipMessage Q m w numReaders (w % Q + 17) = 1 :=
  commitBuffer_apply_flag _ _

/-- Without padding a skip message is its header. -/
theorem insertSkipMessage_sameOutside (hpadding : paddingSize Q (w % Q) = 0) (m : Memory) :
    SameOutside m (insertSkipMessage Q m w numReaders) (w % Q) 18 := by
  simp only [insertSkipMessage, hpadding]
  have hheader := storeHeaderFields_sameOutside m (w % Q) w 0 .padding numReaders
  have hnothing : ∀ m' : Memory, ∀ a n : Nat, SameOutside m' (m'.fill a 0 0) (w % Q) n :=
    fun m' a n i _ => fill_sameOutside (m := m') (a := a) (n := 0) 0 i (by omega)
  exact hheader.trans ((hnothing _ _ 18).trans (commitBuffer_sameOutside _ _))

/-- With padding to clear, the last byte cleared lies 306 bytes past the last byte
of the ring. -/
theorem insertSkipMessage_apply_past (numReaders : Nat) (hQ : Q ≤ 2 ^ 30)
    (hroom : w % Q + 18 < Q) (m : Memory) :
    insertSkipMessage Q m w numReaders (Q + 305) = 0 := by
  have hpadding : paddingSize Q (w % Q) = Q - w % Q - 18 := paddingSize_eq hQ hroom.le
  simp only [insertSkipMessage, commitBuffer, hpadding]
  rw [setCommitFlag_sameOutside _ (w % Q) .readyForConsumer (Q + 305) (by omega)]
  exact fill_apply_mem (by unfold sizeofMessageHeader; omega)
    (by unfold sizeofMessageHeader; omega)

/-! ### Every write -/

/-- A header that sticks out of the ring is written there. -/
theorem exists_write_flag_past (numReaders size : Nat) (hout : Q < w % Q + 18) :
    ∃ m m', ReservationWrites Q w numReaders size m m' ∧
      ¬ TouchesOnly Q w (w + bytesToBump64 Q w (add64 size sizeofMessageHeader)) m m' := by
  have one_ne_two : (1 : UInt8) ≠ 2 := by decide
  have hflag : ∀ m' : Memory, m' (w % Q + 17) = 1 →
      ¬ TouchesOnly Q w (w + bytesToBump64 Q w (add64 size sizeofMessageHeader))
        (fun _ => 2) m' := by
    intro m' hone htouches
    have hlt := (htouches (w % Q + 17) (by rw [hone]; exact one_ne_two)).2.2
    omega
  cases hskip : needsSkip64 Q w (add64 size sizeofMessageHeader) with
  | true =>
    refine ⟨fun _ => 2, insertSkipMessage Q (fun _ => 2) w numReaders, ?_,
      hflag _ (insertSkipMessage_apply_flag _ _ _ _)⟩
    rw [ReservationWrites, if_pos hskip]
  | false =>
    refine ⟨fun _ => 2, commitBuffer (fun _ => 2) (w % Q), ?_,
      hflag _ (commitBuffer_apply_flag _ _)⟩
    rw [ReservationWrites, if_neg (by rw [hskip]; exact Bool.false_ne_true)]
    exact .commit _

/-- The writers of a reservation change nothing else if and only if it needs no
skip message or a skip message without padding. -/
theorem writers_touch_only_iff (haccepted : checkSize params size = .ok ()) (w numReaders : Nat) :
    (∀ m m', ReservationWrites params.queueSize w numReaders size m m' →
      TouchesOnly params.queueSize w
        (w + bytesToBump64 params.queueSize w (add64 size sizeofMessageHeader)) m m') ↔
      w % params.queueSize + size + 36 ≤ params.queueSize ∨
        w % params.queueSize + 18 = params.queueSize := by
  have hmax : params.queueSize ≤ 2 ^ 30 := params.le_max
  constructor
  · intro hall
    by_contra hnot
    rcases Nat.lt_or_ge params.queueSize (w % params.queueSize + 18) with hout | hroom
    · obtain ⟨m, m', hwrites, htouches⟩ :=
        exists_write_flag_past numReaders size hout
      exact htouches (hall m m' hwrites)
    · have hlengths := Lengths.of_checkSize haccepted (by unfold sizeofMessageHeader; omega)
      have hskip : needsSkip params.queueSize w size = true := by
        rw [needsSkip_iff]
        omega
      have hwrites : ReservationWrites params.queueSize w numReaders size (fun _ => 2)
          (insertSkipMessage params.queueSize (fun _ => 2) w numReaders) := by
        rw [ReservationWrites, hlengths.needsSkip64_eq, if_pos hskip]
      have hzero := insertSkipMessage_apply_past numReaders hmax
        (show w % params.queueSize + 18 < params.queueSize by omega) (fun _ => 2)
      have hlt := (hall _ _ hwrites (params.queueSize + 305) (by rw [hzero]; decide)).2.2
      omega
  · intro hcond m m' hwrites
    have hlengths := Lengths.of_checkSize haccepted (by unfold sizeofMessageHeader; omega)
    rw [ReservationWrites, hlengths.needsSkip64_eq] at hwrites
    rw [hlengths.bytesToBump64_eq]
    rcases hcond with hfits | hheader
    · have hneeds : needsSkip params.queueSize w size = false := by
        rw [← Bool.not_eq_true, needsSkip_iff]
        omega
      rw [hneeds, if_neg Bool.false_ne_true] at hwrites
      have hlen : w + bytesToBump params.queueSize w (size + 18) - w = size + 18 := by
        rw [bytesToBump_eq, if_pos (by omega), Nat.add_sub_cancel_left]
      refine .of_sameOutside ?_ ?_
      · rw [hlen]
        exact hwrites.sameOutside hlengths
      · rw [hlen]
        omega
    · have hneeds : needsSkip params.queueSize w size = true := by
        rw [needsSkip_iff]
        omega
      rw [hneeds, if_pos rfl] at hwrites
      have hlen : w + bytesToBump params.queueSize w (size + 18) - w = 18 := by
        rw [bytesToBump_eq, if_neg (by omega)]
        omega
      have hpadding : paddingSize params.queueSize (w % params.queueSize) = 0 := by
        rw [paddingSize_eq hmax hheader.le]
        unfold sizeofMessageHeader
        omega
      refine .of_sameOutside ?_ ?_
      · rw [hlen, hwrites]
        exact insertSkipMessage_sameOutside hpadding m
      · rw [hlen]
        omega

end

/-- A message of 20 bytes at the start of a ring of 64 bytes. -/
theorem writers_touch_only_first :
    TouchesOnly 64 0 (0 + bytesToBump64 64 0 (add64 20 sizeofMessageHeader)) (fun _ => 0)
      (commitBuffer (fun _ => 0) 0) := by
  let params : IpcQueueParameters := ⟨64, true, by decide, by decide⟩
  have haccepted : checkSize params 20 = .ok () := checkSize_eq_ok_iff.mpr (by decide)
  have htouches := (writers_touch_only_iff haccepted 0 1).mpr (Or.inl (by decide))
  refine htouches _ _ ?_
  have hskip : needsSkip64 64 0 (add64 20 sizeofMessageHeader) = false := by decide
  rw [ReservationWrites, hskip, if_neg Bool.false_ne_true]
  exact .commit _

/-- The skip message behind a message of 12 bytes in a ring of 64 bytes clears
bytes 354 to 369. -/
theorem writers_touch_past_end : ∃ (params : IpcQueueParameters) (o : Offsets),
    params.queueSize = 64 ∧ Reach (offsetStep params) (fun _ _ => True) Offsets.init o ∧
      o.writeOffset = 30 ∧ checkSize params 20 = .ok () ∧
      ∃ m m', ReservationWrites 64 30 1 20 m m' ∧
        ¬ TouchesOnly 64 30 (30 + bytesToBump64 64 30 (add64 20 sizeofMessageHeader)) m m' := by
  let params : IpcQueueParameters := ⟨64, true, by decide, by decide⟩
  have haccepted : checkSize params 12 = .ok () := checkSize_eq_ok_iff.mpr (by decide)
  have hstep : offsetStep params Offsets.init (.reserve 12) = some (Offsets.init.reserve 64 12) := by
    rw [offsetStep, haccepted]
    rfl
  have hreach : Reach (offsetStep params) (fun _ _ => True) Offsets.init
      (Offsets.init.reserve 64 12) := (Reach.refl Offsets.init).next trivial hstep
  refine ⟨params, Offsets.init.reserve 64 12, rfl, hreach, by decide +kernel,
    checkSize_eq_ok_iff.mpr (by decide), fun _ => 2, insertSkipMessage 64 (fun _ => 2) 30 1, ?_, ?_⟩
  · rw [ReservationWrites, if_pos (by decide)]
  · intro htouches
    have hzero : insertSkipMessage 64 (fun _ => 2) 30 1 369 = 0 :=
      insertSkipMessage_apply_past 1 (by decide) (by decide) _
    have hlt := (htouches 369 (by rw [hzero]; decide)).2.2
    exact absurd hlt (by decide)

/-! ### The queue model writes the same bytes -/

section

variable {Q : RingSize} {s : State} {b : Block}

/-- A claim of the queue model that need not wait. -/
theorem finishClaim_mem (hwait : mustWait Q s b = false) (hroom : b.hdr Q + 18 ≤ Q.bytes) :
    (finishClaim Q s b).mem =
      if b.isPadding Q then insertSkipMessage Q.bytes s.mem b.offset b.numReaders
      else storeHeaderFields s.mem (b.hdr Q) b.offset b.size .normal b.numReaders := by
  have hroom' : b.hdr Q + sizeofMessageHeader ≤ Q.bytes := hroom
  rw [finishClaim_eq hwait]
  cases hpad : b.isPadding Q with
  | true =>
    have hsize : b.messageSize Q = paddingSize Q.bytes (b.hdr Q) := by
      rw [paddingSize_eq Q.le_pow hroom', Block.messageSize, if_pos hpad]
    have htype : b.type Q = .padding := if_pos hpad
    simp only [if_true, finishSkip, Block.writeHeader, hsize, htype]
    rfl
  | false =>
    have hsize : b.messageSize Q = b.size := if_neg (by rw [hpad]; exact Bool.false_ne_true)
    have htype : b.type Q = .normal := if_neg (by rw [hpad]; exact Bool.false_ne_true)
    simp only [Bool.false_eq_true, if_false, Block.writeHeader, hsize, htype]
    rfl

theorem writeToBuffer_mem_eq :
    (writeToBuffer Q s b).mem = (messageSpan Q.bytes b.offset b.size).writeToBuffer s.mem b.data :=
  rfl

theorem abortBuffer_mem_eq :
    (abortBuffer Q s b).mem = (messageSpan Q.bytes b.offset b.size).abort s.mem :=
  rfl

end

end MockExchange
