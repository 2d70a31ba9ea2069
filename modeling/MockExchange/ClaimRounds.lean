import MockExchange.ClaimBuffer

/-!
# The rounds of a claim

Readers release committed blocks in order and stop in front of the first block
that is not committed. A round reserves `[w, e)` and loads `read_offset` until it
is at most a ring behind `e`, so with readers that keep releasing the round ends
if and only if that place is, unless the reservation left the range of the 56-bit
write offset. A call makes at most one round for a skip message.
-/

namespace MockExchange

open ByteMemory Memory MessageHeader UnpackedReadersAndWriterOffset

/-- Where the message's own region starts: at the write offset, or behind the
skip message that has to be inserted there. -/
def messageStart (Q writeOffset size : Nat) : Nat :=
  if writeOffset % Q + size + 36 ≤ Q then writeOffset else writeOffset + (Q - writeOffset % Q)

def ClaimState.writeOffset (s : ClaimState) : Nat :=
  (unwrap s.readersAndWriteOffset).writeOffset.toNat

/-- The headers of the blocks that are not committed. -/
def ClaimState.uncommitted (s : ClaimState) : List Nat :=
  (s.unreleased.filter fun block => !block.committed).map UnreleasedBlock.buffer

def totalLength (blocks : List UnreleasedBlock) : Nat :=
  (blocks.map UnreleasedBlock.totalMessageLen).sum

section

variable {params : IpcQueueParameters} {readers : ReaderSchedule} {s t u : ClaimState}
  {size Q w limit n : Nat} {stuck : List UnreleasedBlock}

@[simp] theorem totalLength_append (blocks blocks' : List UnreleasedBlock) :
    totalLength (blocks ++ blocks') = totalLength blocks + totalLength blocks' := by
  simp [totalLength]

theorem totalLength_concat (blocks : List UnreleasedBlock) (block : UnreleasedBlock) :
    totalLength (blocks ++ [block]) = totalLength blocks + block.totalMessageLen := by
  simp [totalLength]

/-! ### What the readers do -/

namespace ClaimState

/-- The steps of the readers keep what the writer's call is about. -/
structure SameRound (s t : ClaimState) : Prop where
  readersAndWriteOffset : t.readersAndWriteOffset = s.readersAndWriteOffset
  skips : t.skips = s.skips
  wrapped : t.wrapped = s.wrapped
  uncommitted : t.uncommitted = s.uncommitted

theorem SameRound.refl (s : ClaimState) : s.SameRound s := ⟨rfl, rfl, rfl, rfl⟩

theorem SameRound.trans (h : s.SameRound t) (h' : t.SameRound u) : s.SameRound u :=
  ⟨h'.readersAndWriteOffset.trans h.readersAndWriteOffset, h'.skips.trans h.skips,
    h'.wrapped.trans h.wrapped, h'.uncommitted.trans h.uncommitted⟩

theorem sameRound_releaseBlock (s : ClaimState) : s.SameRound s.releaseBlock := by
  unfold releaseBlock
  split
  · rename_i buffer len rest hblocks
    refine ⟨rfl, rfl, rfl, ?_⟩
    simp [uncommitted, hblocks]
  · exact .refl s

theorem sameRound_load (readers : ReaderSchedule) (s : ClaimState) :
    s.SameRound (s.load readers) := by
  have hreleases : ∀ n, s.SameRound (releaseBlock^[n] s) := by
    intro n
    induction n with
    | zero => exact .refl s
    | succ n ih =>
      rw [Function.iterate_succ_apply']
      exact ih.trans (sameRound_releaseBlock _)
  obtain ⟨hword, hskips, hwrapped, huncommitted⟩ := hreleases (readers.releases s.loads)
  exact ⟨hword, hskips, hwrapped, huncommitted⟩

/-- The readers get to `limit` and stop there, in front of `stuck`. -/
structure Releasing (s : ClaimState) (limit : Nat) (stuck : List UnreleasedBlock) : Prop where
  left : ∃ left, s.unreleased = left ++ stuck ∧ (∀ block ∈ left, block.committed = true) ∧
    s.readOffset + totalLength left = limit
  stuck : ∀ block ∈ stuck.head?, block.committed = false
  limit_lt : limit < 2 ^ 64

theorem Releasing.readOffset_le (h : s.Releasing limit stuck) : s.readOffset ≤ limit := by
  obtain ⟨left, -, -, hlimit⟩ := h.left
  omega

/-- A release gets the readers on by one block, unless they are at their limit. -/
theorem Releasing.releaseBlock (h : s.Releasing limit stuck) :
    s.releaseBlock.Releasing limit stuck ∧ s.readOffset ≤ s.releaseBlock.readOffset ∧
      s.releaseBlock.unreleased.length - stuck.length =
        s.unreleased.length - stuck.length - 1 := by
  obtain ⟨left, hblocks, hcommitted, hlimit⟩ := h.left
  cases left with
  | nil =>
    have hsame : s.releaseBlock = s := by
      unfold ClaimState.releaseBlock
      split
      · rename_i buffer len rest heq
        have huncommitted := h.stuck
        rw [hblocks, List.nil_append] at heq
        rw [heq] at huncommitted
        cases huncommitted _ rfl
      · rfl
    rw [hsame, hblocks, List.nil_append, Nat.sub_self]
    exact ⟨h, Nat.le_refl _, rfl⟩
  | cons block left =>
    obtain ⟨buffer, len, committed⟩ := block
    obtain rfl : committed = true := hcommitted _ List.mem_cons_self
    have hnext : s.releaseBlock = { s with
        readOffset := add64 s.readOffset len
        unreleased := left ++ stuck } := by
      unfold ClaimState.releaseBlock
      rw [hblocks]
      rfl
    have hlt := h.limit_lt
    have hsum : s.readOffset + (len + totalLength left) = limit := hlimit
    have hadd : add64 s.readOffset len = s.readOffset + len := by
      unfold add64
      omega
    rw [hnext, hadd]
    refine ⟨⟨⟨left, rfl, ?_, ?_⟩, h.stuck, hlt⟩, Nat.le_add_right _ _, ?_⟩
    · exact fun block hmem => hcommitted block (List.mem_cons_of_mem _ hmem)
    · change s.readOffset + len + totalLength left = limit
      omega
    · rw [hblocks]
      simp only [List.cons_append, List.length_cons, List.length_append]
      omega

theorem Releasing.releaseBlocks (h : s.Releasing limit stuck) (n : Nat) :
    (ClaimState.releaseBlock^[n] s).Releasing limit stuck ∧
      s.readOffset ≤ (ClaimState.releaseBlock^[n] s).readOffset ∧
      (ClaimState.releaseBlock^[n] s).unreleased.length - stuck.length =
        s.unreleased.length - stuck.length - n := by
  induction n with
  | zero => exact ⟨h, Nat.le_refl _, rfl⟩
  | succ n ih =>
    obtain ⟨hreleasing, hle, hlength⟩ := ih
    obtain ⟨hnext, hle', hlength'⟩ := hreleasing.releaseBlock
    rw [Function.iterate_succ_apply']
    exact ⟨hnext, Nat.le_trans hle hle', by omega⟩

theorem Releasing.load (readers : ReaderSchedule) (h : s.Releasing limit stuck) :
    (s.load readers).Releasing limit stuck ∧ s.readOffset ≤ (s.load readers).readOffset ∧
      (s.load readers).unreleased.length - stuck.length =
        s.unreleased.length - stuck.length - readers.releases s.loads := by
  obtain ⟨⟨hleft, hstuck, hlt⟩, hle, hlength⟩ := h.releaseBlocks (readers.releases s.loads)
  exact ⟨⟨hleft, hstuck, hlt⟩, hle, hlength⟩

theorem Releasing.loads (readers : ReaderSchedule) (h : s.Releasing limit stuck) (n : Nat) :
    ((ClaimState.load readers)^[n] s).Releasing limit stuck ∧
      s.readOffset ≤ ((ClaimState.load readers)^[n] s).readOffset ∧
      ((ClaimState.load readers)^[n] s).loads = s.loads + n ∧
      ((ClaimState.load readers)^[n] s).unreleased.length - stuck.length ≤
        s.unreleased.length - stuck.length := by
  induction n with
  | zero => exact ⟨h, Nat.le_refl _, rfl, Nat.le_refl _⟩
  | succ n ih =>
    obtain ⟨hreleasing, hle, hloads, hlength⟩ := ih
    obtain ⟨hnext, hle', hlength'⟩ := hreleasing.load readers
    rw [Function.iterate_succ_apply']
    refine ⟨hnext, Nat.le_trans hle hle', ?_, by omega⟩
    change ((ClaimState.load readers)^[n] s).loads + 1 = s.loads + (n + 1)
    omega

/-- Readers that keep releasing get to their limit. -/
theorem Releasing.exists_released (h : s.Releasing limit stuck)
    (hkeeps : readers.KeepsReleasing) :
    ∃ n, ((ClaimState.load readers)^[n + 1] s).readOffset = limit := by
  generalize hlength : s.unreleased.length - stuck.length = m
  induction m using Nat.strong_induction_on generalizing s with
  | _ m ih =>
    obtain ⟨k, hle, hpos⟩ := hkeeps s.loads
    obtain ⟨hreleasing, -, hloads, hlength'⟩ := h.loads readers (k - s.loads)
    obtain ⟨hnext, -, hshorter⟩ := hreleasing.load readers
    rw [← Function.iterate_succ_apply' (ClaimState.load readers)] at hnext hshorter
    rw [hloads, Nat.add_sub_cancel' hle] at hshorter
    rcases Nat.eq_zero_or_pos m with hzero | hm
    · -- nothing is left to release
      refine ⟨k - s.loads, ?_⟩
      obtain ⟨left, hblocks, -, hlimit⟩ := hnext.left
      have hnone : left = [] := by
        rw [hblocks, List.length_append] at hshorter
        exact List.eq_nil_of_length_eq_zero (by omega)
      rw [hnone] at hlimit
      exact hlimit
    · obtain ⟨n, hn⟩ := ih _ (by omega) hnext rfl
      refine ⟨n + (k - s.loads + 1), ?_⟩
      rw [← Function.iterate_add_apply] at hn
      rw [← hn]
      congr 2
      omega

end ClaimState

namespace ClaimState

variable {block : UnreleasedBlock}

/-- A new block behind blocks that stop the readers, or one that does. -/
theorem Releasing.append (h : s.Releasing limit stuck)
    (hunreleased : t.unreleased = s.unreleased ++ [block]) (hread : t.readOffset = s.readOffset)
    (hblock : stuck = [] → block.committed = false) : t.Releasing limit (stuck ++ [block]) := by
  obtain ⟨left, hblocks, hcommitted, hlimit⟩ := h.left
  refine ⟨⟨left, ?_, hcommitted, ?_⟩, ?_, h.limit_lt⟩
  · rw [hunreleased, hblocks, List.append_assoc]
  · rw [hread]
    exact hlimit
  · cases stuck with
    | nil =>
      intro b hb
      cases hb
      exact hblock rfl
    | cons first rest => exact h.stuck

/-- A committed block in front of which nothing stops the readers. -/
theorem Releasing.append_committed (h : s.Releasing limit [])
    (hunreleased : t.unreleased = s.unreleased ++ [block]) (hread : t.readOffset = s.readOffset)
    (hblock : block.committed = true) (hlt : limit + block.totalMessageLen < 2 ^ 64) :
    t.Releasing (limit + block.totalMessageLen) [] := by
  obtain ⟨left, hblocks, hcommitted, hlimit⟩ := h.left
  refine ⟨⟨left ++ [block], ?_, ?_, ?_⟩, h.stuck, hlt⟩
  · rw [hunreleased, hblocks, List.append_nil, List.append_nil]
  · intro b hb
    rcases List.mem_append.mp hb with hold | hnew
    · exact hcommitted b hold
    · rw [List.mem_singleton.mp hnew]
      exact hblock
  · rw [hread, ← hlimit, totalLength_concat, Nat.add_assoc]

end ClaimState

/-! ### The wait loop -/

/-- The wait loop ends with the first load that lets the writer pass. -/
theorem exists_waitLoop_eq_some
    (hpass : mustWait64 Q w ((ClaimState.load readers)^[n + 1] s).readOffset = false) :
    ∃ t, ∀ fuel, n < fuel → waitLoop readers Q w fuel s = some t := by
  induction n generalizing s with
  | zero =>
    refine ⟨s.load readers, ?_⟩
    intro fuel hfuel
    obtain ⟨fuel, rfl⟩ := Nat.exists_eq_succ_of_ne_zero (Nat.ne_of_gt hfuel)
    rw [Function.iterate_one] at hpass
    rw [waitLoop, hpass, if_neg Bool.false_ne_true]
  | succ n ih =>
    cases hwait : mustWait64 Q w (s.load readers).readOffset with
    | false =>
      refine ⟨s.load readers, ?_⟩
      intro fuel hfuel
      obtain ⟨fuel, rfl⟩ := Nat.exists_eq_succ_of_ne_zero (Nat.ne_of_gt (Nat.zero_lt_of_lt hfuel))
      rw [waitLoop, hwait, if_neg Bool.false_ne_true]
    | true =>
      obtain ⟨t, ht⟩ := ih (s := s.load readers) hpass
      refine ⟨t, ?_⟩
      intro fuel hfuel
      obtain ⟨fuel, rfl⟩ := Nat.exists_eq_succ_of_ne_zero (Nat.ne_of_gt (Nat.zero_lt_of_lt hfuel))
      rw [waitLoop, hwait, if_pos rfl]
      exact ht fuel (by omega)

/-- What the loop leaves behind is a state of the readers in which the writer
passes. -/
theorem of_waitLoop {fuel : Nat} (h : waitLoop readers Q w fuel s = some t)
    (hreleasing : s.Releasing limit stuck) :
    t.Releasing limit stuck ∧ s.readOffset ≤ t.readOffset ∧ s.SameRound t ∧
      mustWait64 Q w t.readOffset = false := by
  induction fuel generalizing s with
  | zero => cases h
  | succ fuel ih =>
    obtain ⟨hnext, hle, -⟩ := hreleasing.load readers
    have hsame := ClaimState.sameRound_load readers s
    rw [waitLoop] at h
    split at h
    · obtain ⟨hlast, hle', hsame', hpass⟩ := ih h hnext
      exact ⟨hlast, Nat.le_trans hle hle', hsame.trans hsame', hpass⟩
    · rename_i hpass
      cases h
      exact ⟨hnext, hle, hsame, Bool.eq_false_iff.mpr hpass⟩

/-- While the writer and the readers count alike, the test is the one intended. -/
theorem mustWait64_eq {finish mark : Nat} (hle : mark ≤ finish) (hlt : finish < 2 ^ 64) :
    mustWait64 Q finish mark = decide (mark + Q < finish) := by
  rw [mustWait64, sub64_eq hle hlt]
  exact decide_eq_decide.mpr (by omega)

/-- A watermark beyond the range of the write offset makes the difference huge. -/
theorem mustWait64_eq_true {finish mark : Nat} (hQ : Q ≤ 2 ^ 30)
    (hfinish : finish + 2 ^ 30 < mark) (hmark : mark < 2 ^ 64 - 2 ^ 30 + finish) :
    mustWait64 Q finish mark = true := by
  apply decide_eq_true
  unfold sub64
  omega

/-! ### Reserving -/

/-- The state after the CAS loop of a round. -/
def ClaimState.reserved (s : ClaimState) (Q size : Nat) : ClaimState :=
  { s with
    readersAndWriteOffset :=
      (reserveOffset Q s.readersAndWriteOffset (add64 size sizeofMessageHeader)).2 }

theorem Lengths.writeOffset_reserved (h : Lengths Q size) (s : ClaimState) :
    (s.reserved Q size).writeOffset =
      (s.writeOffset + bytesToBump Q s.writeOffset (size + 18)) % 2 ^ 56 := by
  rw [← h.bytesToBump64_eq]
  exact writeOffset_returnAddOffset _ _

/-- The end of the reservation, as the wait loop computes it. -/
theorem Lengths.finish_eq (h : Lengths Q size) (s : ClaimState) :
    (reserveOffset Q s.readersAndWriteOffset
      (add64 size sizeofMessageHeader)).1.writeOffset.toNat =
        s.writeOffset + bytesToBump Q s.writeOffset (size + 18) := by
  have hbump := h.bytesToBump_le s.writeOffset
  have hmax := h.le_max
  have hword := s.readersAndWriteOffset.toNat_lt
  have hlt : s.writeOffset < 2 ^ 56 := by
    rw [ClaimState.writeOffset, unwrap_writeOffset_toNat]
    omega
  rw [← h.bytesToBump64_eq] at hbump ⊢
  simp only [reserveOffset, returnAddOffset, UInt64.toNat_add, UInt64.toNat_ofNat']
  change (s.writeOffset + bytesToBump64 Q s.writeOffset (add64 size sizeofMessageHeader) % 2 ^ 64) %
    2 ^ 64 = s.writeOffset + bytesToBump64 Q s.writeOffset (add64 size sizeofMessageHeader)
  omega

theorem Lengths.waitForNextWriteOffset_eq (h : Lengths Q size) (fuel : Nat) :
    waitForNextWriteOffset readers Q fuel s (add64 size sizeofMessageHeader) =
      (waitLoop readers Q (s.writeOffset + bytesToBump Q s.writeOffset (size + 18)) fuel
        (s.reserved Q size)).map fun t => (unwrap s.readersAndWriteOffset, t) := by
  rw [← h.finish_eq s]
  rfl

theorem Lengths.bytesToBump_of_fits (h : Lengths Q size) (hfits : w % Q + size + 36 ≤ Q) :
    bytesToBump Q w (size + 18) = size + 18 := by
  have hlt := h.mod_lt w
  rw [bytesToBump_eq, if_pos (by omega)]

theorem Lengths.bytesToBump_of_skip (h : Lengths Q size) (hskip : ¬ w % Q + size + 36 ≤ Q) :
    bytesToBump Q w (size + 18) = Q - w % Q := by
  have hlt := h.mod_lt w
  rw [bytesToBump_eq, if_neg (by omega)]

theorem Lengths.needsSkip_eq (h : Lengths Q size) :
    needsSkip Q w size = decide (¬ w % Q + size + 36 ≤ Q) := by
  have hlt := h.mod_lt w
  refine Bool.eq_iff_iff.mpr ?_
  rw [needsSkip_iff, decide_eq_true_eq]
  omega

/-- The result of the last round. -/
def ClaimState.claimed (s : ClaimState) (Q size : Nat) (word : UInt64) :
    Except String WriterSpan × ClaimState :=
  let wrapper := unwrap word
  let relWriteOffset := wrapper.writeOffset.toNat % Q
  let mem := storeHeaderFields s.mem relWriteOffset wrapper.writeOffset.toNat size .normal
    wrapper.numReaders.toNat
  let block : UnreleasedBlock := ⟨relWriteOffset, add64 (size % 2 ^ 32) sizeofMessageHeader, false⟩
  (.ok ⟨relWriteOffset, size + sizeofMessageHeader⟩,
    { s with mem := mem, unreleased := s.unreleased ++ [block] })

/-- One round of an accepted claim. -/
theorem claimBuffer_succ (haccepted : checkSize params size = .ok ())
    (hroom : sizeofMessageHeader ≤ params.queueSize) (fuel : Nat) :
    claimBuffer params readers (fuel + 1) s size =
      (waitLoop readers params.queueSize
        (s.writeOffset + bytesToBump params.queueSize s.writeOffset (size + 18)) fuel
        (s.reserved params.queueSize size)).bind fun t =>
          if needsSkip params.queueSize s.writeOffset size then
            claimBuffer params readers fuel
              (t.insertSkip params.queueSize (unwrap s.readersAndWriteOffset)) size
          else some (t.claimed params.queueSize size s.readersAndWriteOffset) := by
  have hlengths := Lengths.of_checkSize haccepted hroom
  have hwrapped : (s.wrapped || decide (params.queueSize < sizeofMessageHeader)) = s.wrapped := by
    rw [decide_eq_false (by omega), Bool.or_false]
  have hs : ClaimState.mk s.mem s.readersAndWriteOffset s.readOffset s.unreleased s.loads s.skips
      (s.wrapped || decide (params.queueSize < sizeofMessageHeader)) = s := by rw [hwrapped]
  rw [claimBuffer, haccepted]
  simp only [hs]
  rw [hlengths.waitForNextWriteOffset_eq]
  cases waitLoop readers params.queueSize (s.writeOffset +
      bytesToBump params.queueSize s.writeOffset (size + 18)) fuel
      (s.reserved params.queueSize size) with
  | none => rfl
  | some t =>
    rw [Option.map_some, Option.bind_some, Option.bind_some, ← hlengths.needsSkip64_eq,
      ClaimState.claimed, ← hlengths.total_eq, ClaimState.writeOffset]

/-! ### One round -/

/-- Everything below `w` is reserved. The readers get to `limit`, in front of the
blocks that stop them. -/
structure ClaimState.At (params : IpcQueueParameters) (s : ClaimState) (limit w : Nat)
    (stuck : List UnreleasedBlock) : Prop where
  releasing : s.Releasing limit stuck
  length : limit + totalLength stuck = w
  writeOffset : s.writeOffset = w % 2 ^ 56
  window : w ≤ s.readOffset + params.queueSize
  lt : w < 2 ^ 64
  room : w % params.queueSize + sizeofMessageHeader ≤ params.queueSize

/-- How far the readers get once a message is claimed at `m`. -/
def stopAt (stuck : List UnreleasedBlock) (limit m : Nat) : Nat :=
  if stuck = [] then m else limit

namespace ClaimState.At

theorem limit_le (h : s.At params limit w stuck) : limit ≤ w := by
  have hlength := h.length
  omega

/-- Without such blocks the readers get everywhere. -/
theorem whole (h : s.At params limit w stuck) (hempty : stuck = []) : limit = w := by
  have hlength := h.length
  rw [hempty] at hlength
  exact hlength

theorem mod_eq (h : s.At params limit w stuck) :
    s.writeOffset % params.queueSize = w % params.queueSize := by
  rw [h.writeOffset, Nat.mod_mod_of_dvd _ params.dvd]

theorem bytesToBump_eq (h : s.At params limit w stuck) :
    bytesToBump params.queueSize s.writeOffset (size + 18) =
      bytesToBump params.queueSize w (size + 18) := by
  simp only [MockExchange.bytesToBump_eq, h.mod_eq]

theorem needsSkip_eq (h : s.At params limit w stuck) :
    needsSkip params.queueSize s.writeOffset size = needsSkip params.queueSize w size := by
  simp only [needsSkip, h.mod_eq]

theorem reserved (h : s.At params limit w stuck) (Q size : Nat) :
    (s.reserved Q size).Releasing limit stuck :=
  ⟨h.releasing.left, h.releasing.stuck, h.releasing.limit_lt⟩

/-- A round that ends reserved in the range of the write offset, and at most a
ring behind the readers' limit. -/
theorem of_waitLoop {fuel : Nat} (h : s.At params limit w stuck)
    (hlengths : Lengths params.queueSize size)
    (hwait : waitLoop readers params.queueSize
      (s.writeOffset + bytesToBump params.queueSize w (size + 18)) fuel
      (s.reserved params.queueSize size) = some t) :
    w < 2 ^ 56 ∧ t.Releasing limit stuck ∧ (s.reserved params.queueSize size).SameRound t ∧
      w + bytesToBump params.queueSize w (size + 18) ≤ t.readOffset + params.queueSize := by
  obtain ⟨hreleasing, hle, hsame, hpass⟩ :=
    MockExchange.of_waitLoop hwait (h.reserved params.queueSize size)
  have hbump := hlengths.bytesToBump_le w
  have hmax := hlengths.le_max
  have hlimit := hreleasing.readOffset_le
  have hoffset := h.writeOffset
  have hwindow := h.window
  have hlimit_le := h.limit_le
  have hlt := h.lt
  have hstart : s.readOffset ≤ t.readOffset := hle
  have hrange : w < 2 ^ 56 := by
    by_contra hout
    rw [mustWait64_eq_true hmax (by omega) (by omega)] at hpass
    cases hpass
  refine ⟨hrange, hreleasing, hsame, ?_⟩
  rw [mustWait64_eq (by omega) (by omega), decide_eq_false_iff_not] at hpass
  omega

/-- In front of their limit the readers let such a round end. -/
theorem exists_waitLoop (h : s.At params limit w stuck) (hlengths : Lengths params.queueSize size)
    (hkeeps : readers.KeepsReleasing) (hrange : w < 2 ^ 56)
    (hfits : w + bytesToBump params.queueSize w (size + 18) ≤ limit + params.queueSize) :
    ∃ n t, ∀ fuel, n < fuel → waitLoop readers params.queueSize
      (s.writeOffset + bytesToBump params.queueSize w (size + 18)) fuel
      (s.reserved params.queueSize size) = some t := by
  obtain ⟨n, hn⟩ := (h.reserved params.queueSize size).exists_released hkeeps
  have hbump := hlengths.bytesToBump_le w
  have hmax := hlengths.le_max
  have hoffset := h.writeOffset
  have hlimit_le := h.limit_le
  refine ⟨n, exists_waitLoop_eq_some ?_⟩
  rw [hn, mustWait64_eq (by omega) (by omega)]
  exact decide_eq_false (by omega)

/-- A skip message is committed, so the readers' limit moves with it unless
something stops them before. -/
theorem insertSkip (h : s.At params limit w stuck) (hlengths : Lengths params.queueSize size)
    (hskip : ¬ w % params.queueSize + size + 36 ≤ params.queueSize) (hrange : w < 2 ^ 56)
    (hreleasing : t.Releasing limit stuck)
    (hsame : (s.reserved params.queueSize size).SameRound t)
    (hwindow : w + (params.queueSize - w % params.queueSize) ≤ t.readOffset + params.queueSize) :
    ∃ stuck', (stuck' = [] ↔ stuck = []) ∧
      (t.insertSkip params.queueSize (unwrap s.readersAndWriteOffset)).At params
        (stopAt stuck limit (w + (params.queueSize - w % params.queueSize)))
        (w + (params.queueSize - w % params.queueSize)) stuck' := by
  have hlap := hlengths.mod_lt w
  have hmax := hlengths.le_max
  have hroom := h.room
  have hmod : (unwrap s.readersAndWriteOffset).writeOffset.toNat % params.queueSize =
      w % params.queueSize := h.mod_eq
  have hlen : add64 (paddingSize params.queueSize (w % params.queueSize) % 2 ^ 32)
      sizeofMessageHeader = params.queueSize - w % params.queueSize := by
    rw [paddingSize_eq hmax hroom]
    unfold add64 sizeofMessageHeader at *
    omega
  let block : UnreleasedBlock :=
    ⟨w % params.queueSize, params.queueSize - w % params.queueSize, true⟩
  have hunreleased :
      (t.insertSkip params.queueSize (unwrap s.readersAndWriteOffset)).unreleased =
        t.unreleased ++ [block] := by
    simp only [ClaimState.insertSkip, hmod, hlen, block]
  have hnext : ∀ limit' stuck',
      (t.insertSkip params.queueSize (unwrap s.readersAndWriteOffset)).Releasing limit' stuck' →
      limit' + totalLength stuck' = w + (params.queueSize - w % params.queueSize) →
      (t.insertSkip params.queueSize (unwrap s.readersAndWriteOffset)).At params limit'
        (w + (params.queueSize - w % params.queueSize)) stuck' := by
    intro limit' stuck' hreleasing' hlength
    refine ⟨hreleasing', hlength, ?_, hwindow, by omega, ?_⟩
    · have hword : (t.insertSkip params.queueSize (unwrap s.readersAndWriteOffset)).writeOffset =
          (s.reserved params.queueSize size).writeOffset := by
        rw [ClaimState.writeOffset, ClaimState.writeOffset, ← hsame.readersAndWriteOffset]
        rfl
      rw [hword, hlengths.writeOffset_reserved, h.bytesToBump_eq,
        hlengths.bytesToBump_of_skip hskip, h.writeOffset]
      omega
    · have hend : w % params.queueSize + (params.queueSize - w % params.queueSize) =
          params.queueSize := by omega
      rw [← Nat.mod_add_mod, hend, Nat.mod_self]
      have hheader := hlengths.header_le
      omega
  by_cases hempty : stuck = []
  · subst hempty
    obtain rfl := h.whole rfl
    refine ⟨[], Iff.rfl, ?_⟩
    rw [stopAt, if_pos rfl]
    refine hnext _ _ ?_ (Nat.add_zero _)
    refine hreleasing.append_committed hunreleased rfl rfl ?_
    change limit + (params.queueSize - limit % params.queueSize) < _
    omega
  · refine ⟨stuck ++ [block], by simp [hempty], ?_⟩
    rw [stopAt, if_neg hempty]
    refine hnext _ _ (hreleasing.append hunreleased rfl fun hnone => absurd hnone hempty) ?_
    rw [totalLength_concat, ← Nat.add_assoc, h.length]

/-- The message's block is not committed, so the readers stop in front of it at
the latest. -/
theorem claimed (h : s.At params limit w stuck) (hlengths : Lengths params.queueSize size)
    (hfits : w % params.queueSize + size + 36 ≤ params.queueSize) (hrange : w < 2 ^ 56)
    (hreleasing : t.Releasing limit stuck)
    (hsame : (s.reserved params.queueSize size).SameRound t)
    (hwindow : w + (size + 18) ≤ t.readOffset + params.queueSize) :
    ∃ stuck', stuck' ≠ [] ∧
      (t.claimed params.queueSize size s.readersAndWriteOffset).2.At params limit
        (w + (size + 18)) stuck' := by
  have hmax := hlengths.le_max
  have hsize := hlengths.size_le
  let block : UnreleasedBlock :=
    ⟨(unwrap s.readersAndWriteOffset).writeOffset.toNat % params.queueSize,
      add64 (size % 2 ^ 32) sizeofMessageHeader, false⟩
  refine ⟨stuck ++ [block], by simp, ?_⟩
  refine ⟨hreleasing.append rfl rfl fun _ => rfl, ?_, ?_, hwindow, by omega, ?_⟩
  · have hlen : block.totalMessageLen = size + 18 := by
      change add64 (size % 2 ^ 32) sizeofMessageHeader = size + 18
      unfold add64 sizeofMessageHeader
      omega
    rw [totalLength_concat, hlen, ← Nat.add_assoc, h.length]
  · have hword : (t.claimed params.queueSize size s.readersAndWriteOffset).2.writeOffset =
        (s.reserved params.queueSize size).writeOffset := by
      rw [ClaimState.writeOffset, ClaimState.writeOffset, ← hsame.readersAndWriteOffset]
      rfl
    rw [hword, hlengths.writeOffset_reserved, h.bytesToBump_eq,
      hlengths.bytesToBump_of_fits hfits, h.writeOffset]
    omega
  · rw [← Nat.mod_add_mod, Nat.mod_eq_of_lt (by omega)]
    unfold sizeofMessageHeader
    omega

end ClaimState.At

/-! ### The whole call -/

theorem messageStart_of_fits (hfits : w % Q + size + 36 ≤ Q) : messageStart Q w size = w :=
  if_pos hfits

theorem messageStart_of_skip (hskip : ¬ w % Q + size + 36 ≤ Q) :
    messageStart Q w size = w + (Q - w % Q) :=
  if_neg hskip

/-- A call that returned, for a message at `m`. -/
structure Claimed (params : IpcQueueParameters) (s t : ClaimState) (limit m size : Nat)
    (stuck : List UnreleasedBlock) (span : WriterSpan) : Prop where
  range : m < 2 ^ 56
  fits : m + (size + 18) ≤ stopAt stuck limit m + params.queueSize
  region : span = ⟨m % params.queueSize, size + sizeofMessageHeader⟩
  next : ∃ stuck', stuck' ≠ [] ∧ t.At params (stopAt stuck limit m) (m + (size + 18)) stuck'
  uncommitted : t.uncommitted = s.uncommitted ++ [span.buffer]
  skips : t.skips ≤ s.skips + 1
  wrapped : t.wrapped = s.wrapped

namespace ClaimState.At

/-- A round without a skip message is the last one. -/
theorem claimed_of_fits {fuel : Nat} {span : WriterSpan} (h : s.At params limit w stuck)
    (haccepted : checkSize params size = .ok ()) (hroom : sizeofMessageHeader ≤ params.queueSize)
    (hfits : w % params.queueSize + size + 36 ≤ params.queueSize)
    (hreturn : claimBuffer params readers (fuel + 1) s size = some (.ok span, t)) :
    w < 2 ^ 56 ∧ w + (size + 18) ≤ limit + params.queueSize ∧
      span = ⟨w % params.queueSize, size + sizeofMessageHeader⟩ ∧
      (∃ stuck', stuck' ≠ [] ∧ t.At params limit (w + (size + 18)) stuck') ∧
      t.uncommitted = s.uncommitted ++ [span.buffer] ∧ t.skips = s.skips ∧
      t.wrapped = s.wrapped := by
  have hlengths := Lengths.of_checkSize haccepted hroom
  rw [claimBuffer_succ haccepted hroom, h.bytesToBump_eq, h.needsSkip_eq, hlengths.needsSkip_eq,
    decide_eq_false (not_not_intro hfits)] at hreturn
  obtain ⟨u, hwait, hrest⟩ := Option.bind_eq_some_iff.mp hreturn
  rw [if_neg Bool.false_ne_true, Option.some.injEq] at hrest
  obtain ⟨hrange, hreleasing, hsame, hwindow⟩ := h.of_waitLoop hlengths hwait
  rw [hlengths.bytesToBump_of_fits hfits] at hwindow
  have hnext := h.claimed hlengths hfits hrange hreleasing hsame hwindow
  have hread := hreleasing.readOffset_le
  have hspan : span = ⟨w % params.queueSize, size + sizeofMessageHeader⟩ := by
    rw [← h.mod_eq]
    exact (Except.ok.inj (congrArg Prod.fst hrest)).symm
  have ht : t = (u.claimed params.queueSize size s.readersAndWriteOffset).2 :=
    (congrArg Prod.snd hrest).symm
  have huncommitted : (u.claimed params.queueSize size s.readersAndWriteOffset).2.uncommitted =
      u.uncommitted ++ [s.writeOffset % params.queueSize] := by
    simp [ClaimState.claimed, ClaimState.uncommitted, ClaimState.writeOffset]
  refine ⟨hrange, by omega, hspan, ?_, ?_, ?_, ?_⟩
  · rw [ht]
    exact hnext
  · rw [ht, huncommitted, hsame.uncommitted, h.mod_eq, hspan]
    rfl
  · rw [ht]
    exact hsame.skips
  · rw [ht]
    exact hsame.wrapped

/-- What holds when an accepted claim returns. -/
theorem of_claimBuffer {fuel : Nat} {span : WriterSpan} (h : s.At params limit w stuck)
    (haccepted : checkSize params size = .ok ()) (hfits : size + 36 ≤ params.queueSize)
    (hreturn : claimBuffer params readers fuel s size = some (.ok span, t)) :
    Claimed params s t limit (messageStart params.queueSize w size) size stuck span := by
  have hroom : sizeofMessageHeader ≤ params.queueSize := by
    unfold sizeofMessageHeader
    omega
  have hlengths := Lengths.of_checkSize haccepted hroom
  cases fuel with
  | zero => cases hreturn
  | succ fuel =>
    by_cases hfit : w % params.queueSize + size + 36 ≤ params.queueSize
    · obtain ⟨hrange, hend, hspan, hnext, huncommitted, hskips, hwrapped⟩ :=
        h.claimed_of_fits haccepted hroom hfit hreturn
      have hstop : stopAt stuck limit w = limit := by
        unfold stopAt
        split
        · rename_i hempty
          exact (h.whole hempty).symm
        · rfl
      rw [messageStart_of_fits hfit]
      exact ⟨hrange, by rwa [hstop], hspan, by rwa [hstop], huncommitted, by omega, hwrapped⟩
    · rw [messageStart_of_skip hfit]
      rw [claimBuffer_succ haccepted hroom, h.bytesToBump_eq, h.needsSkip_eq,
        hlengths.needsSkip_eq, decide_eq_true hfit] at hreturn
      obtain ⟨u, hwait, hrest⟩ := Option.bind_eq_some_iff.mp hreturn
      rw [if_pos rfl] at hrest
      obtain ⟨hrange, hreleasing, hsame, hwindow⟩ := h.of_waitLoop hlengths hwait
      rw [hlengths.bytesToBump_of_skip hfit] at hwindow
      obtain ⟨stuck', hempty, hskipped⟩ := h.insertSkip hlengths hfit hrange hreleasing hsame hwindow
      cases fuel with
      | zero => cases hrest
      | succ fuel =>
        have hlap := hlengths.mod_lt w
        have hzero : (w + (params.queueSize - w % params.queueSize)) % params.queueSize = 0 := by
          rw [← Nat.mod_add_mod, Nat.add_sub_cancel' hlap.le, Nat.mod_self]
        obtain ⟨hrange', hend, hspan, hnext, huncommitted, hskips, hwrapped⟩ :=
          hskipped.claimed_of_fits haccepted hroom (by omega) hrest
        refine ⟨hrange', hend, hspan, hnext, ?_, ?_, ?_⟩
        · rw [huncommitted]
          congr 1
          have hcommitted : (u.insertSkip params.queueSize
              (unwrap s.readersAndWriteOffset)).uncommitted = u.uncommitted := by
            simp [ClaimState.insertSkip, ClaimState.uncommitted]
          exact hcommitted.trans hsame.uncommitted
        · have hcount : (u.insertSkip params.queueSize
              (unwrap s.readersAndWriteOffset)).skips = u.skips + 1 := rfl
          have hsame' : u.skips = s.skips := hsame.skips
          omega
        · have hflag : (u.insertSkip params.queueSize
              (unwrap s.readersAndWriteOffset)).wrapped = u.wrapped := by
            change (u.wrapped || decide (params.queueSize <
              s.writeOffset % params.queueSize + sizeofMessageHeader)) = _
            have hheader := h.room
            rw [h.mod_eq, decide_eq_false (by omega), Bool.or_false]
          exact hwrapped.trans (hflag.trans hsame.wrapped)

theorem exists_of_fits (h : s.At params limit w stuck)
    (haccepted : checkSize params size = .ok ()) (hroom : sizeofMessageHeader ≤ params.queueSize)
    (hfits : w % params.queueSize + size + 36 ≤ params.queueSize)
    (hkeeps : readers.KeepsReleasing) (hrange : w < 2 ^ 56)
    (hend : w + (size + 18) ≤ limit + params.queueSize) :
    ∃ n span t, ∀ fuel, n < fuel →
      claimBuffer params readers fuel s size = some (.ok span, t) := by
  have hlengths := Lengths.of_checkSize haccepted hroom
  rw [← hlengths.bytesToBump_of_fits hfits] at hend
  obtain ⟨n, t, hwait⟩ := h.exists_waitLoop hlengths hkeeps hrange hend
  refine ⟨n + 1, ⟨s.writeOffset % params.queueSize, size + sizeofMessageHeader⟩,
    (t.claimed params.queueSize size s.readersAndWriteOffset).2, ?_⟩
  intro fuel hfuel
  obtain ⟨fuel, rfl⟩ := Nat.exists_eq_succ_of_ne_zero (Nat.ne_of_gt (Nat.zero_lt_of_lt hfuel))
  rw [claimBuffer_succ haccepted hroom, h.bytesToBump_eq, h.needsSkip_eq, hlengths.needsSkip_eq,
    decide_eq_false (not_not_intro hfits), hwait fuel (by omega), Option.bind_some,
    if_neg Bool.false_ne_true]
  rfl

/-- A claim whose message ends at most a ring behind the place where the readers
stop returns. -/
theorem exists_claimBuffer (h : s.At params limit w stuck)
    (haccepted : checkSize params size = .ok ()) (hfits : size + 36 ≤ params.queueSize)
    (hkeeps : readers.KeepsReleasing)
    (hrange : messageStart params.queueSize w size < 2 ^ 56)
    (hend : messageStart params.queueSize w size + (size + 18) ≤
      stopAt stuck limit (messageStart params.queueSize w size) + params.queueSize) :
    ∃ n span t, ∀ fuel, n < fuel →
      claimBuffer params readers fuel s size = some (.ok span, t) := by
  have hroom : sizeofMessageHeader ≤ params.queueSize := by
    unfold sizeofMessageHeader
    omega
  have hlengths := Lengths.of_checkSize haccepted hroom
  by_cases hfit : w % params.queueSize + size + 36 ≤ params.queueSize
  · rw [messageStart_of_fits hfit] at hrange hend
    refine h.exists_of_fits haccepted hroom hfit hkeeps hrange ?_
    unfold stopAt at hend
    split at hend
    · rename_i hempty
      rwa [h.whole hempty]
    · exact hend
  · rw [messageStart_of_skip hfit] at hrange hend
    have hlap := hlengths.mod_lt w
    have hskip : w + bytesToBump params.queueSize w (size + 18) ≤ limit + params.queueSize := by
      rw [hlengths.bytesToBump_of_skip hfit]
      unfold stopAt at hend
      split at hend
      · rename_i hempty
        rw [h.whole hempty]
        omega
      · omega
    obtain ⟨n, u, hwait⟩ := h.exists_waitLoop hlengths hkeeps (by omega) hskip
    obtain ⟨hrange', hreleasing, hsame, hwindow⟩ :=
      h.of_waitLoop hlengths (hwait (n + 1) (Nat.lt_succ_self n))
    rw [hlengths.bytesToBump_of_skip hfit] at hwindow
    obtain ⟨stuck', -, hskipped⟩ := h.insertSkip hlengths hfit hrange' hreleasing hsame hwindow
    have hzero : (w + (params.queueSize - w % params.queueSize)) % params.queueSize = 0 := by
      rw [← Nat.mod_add_mod, Nat.add_sub_cancel' hlap.le, Nat.mod_self]
    obtain ⟨n', span, t, hnext⟩ :=
      hskipped.exists_of_fits haccepted hroom (by omega) hkeeps hrange hend
    refine ⟨max n n' + 1, span, t, ?_⟩
    intro fuel hfuel
    obtain ⟨fuel, rfl⟩ := Nat.exists_eq_succ_of_ne_zero (Nat.ne_of_gt (Nat.zero_lt_of_lt hfuel))
    rw [claimBuffer_succ haccepted hroom, h.bytesToBump_eq, h.needsSkip_eq, hlengths.needsSkip_eq,
      decide_eq_true hfit, hwait fuel (by omega), Option.bind_some, if_pos rfl]
    exact hnext fuel (by omega)

end ClaimState.At

end

end MockExchange
