import MockExchange.ClaimRounds

/-!
# When a claim completes

The readers keep releasing, so a round waits at most until everything in front
of its reservation is released. Every round reserves either the message or all
that is left of the ring. So the call ends if and only if the message, its header
and one more header fit into an empty ring, as long as the 56-bit write offset
and the 64-bit `read_offset` have not parted.
-/

namespace MockExchange

open ByteMemory Memory MessageHeader Transition UnpackedReadersAndWriterOffset

/-- A call on a queue whose reservations have all been released. -/
def ClaimState.start (mem : Memory) (o : Offsets) : ClaimState where
  mem := mem
  readersAndWriteOffset := o.readersAndWriteOffset
  readOffset := o.reservedBytes % 2 ^ 64
  unreleased := []
  loads := 0
  skips := 0
  wrapped := false

/-- The call returns a region for the message inside the ring, after one skip
message at most and with no subtraction wrapping around. -/
def ClaimCompletes (params : IpcQueueParameters) (readers : ReaderSchedule) (s : ClaimState)
    (size : Nat) : Prop :=
  ∃ fuel span t, claimBuffer params readers fuel s size = some (.ok span, t) ∧ t.skips ≤ 1 ∧
    span.bufferSize = size + sizeofMessageHeader ∧
    span.buffer + span.bufferSize ≤ params.queueSize ∧ t.wrapped = false

section

variable {params : IpcQueueParameters} {readers : ReaderSchedule} {s t : ClaimState}
  {o : Offsets} {size Q w : Nat}

/-- The region of a message lies inside the ring. -/
theorem messageStart_mod_add_le (hpos : 0 < Q) (hfits : size + 36 ≤ Q) (w : Nat) :
    messageStart Q w size % Q + size + 36 ≤ Q := by
  by_cases hfit : w % Q + size + 36 ≤ Q
  · rw [messageStart_of_fits hfit]
    exact hfit
  · have hlap := Nat.mod_lt w hpos
    rw [messageStart_of_skip hfit, ← Nat.mod_add_mod, Nat.add_sub_cancel' hlap.le, Nat.mod_self]
    omega

theorem Offsets.Inv.at_start (h : o.Inv params) (mem : Memory)
    (hroom : sizeofMessageHeader ≤ params.queueSize) :
    (ClaimState.start mem o).At params (o.reservedBytes % 2 ^ 64) (o.reservedBytes % 2 ^ 64) [] where
  releasing := by
    refine ⟨⟨[], rfl, ?_, rfl⟩, ?_, Nat.mod_lt _ (by decide)⟩
    · exact fun _ hblock => absurd hblock List.not_mem_nil
    · exact fun _ hblock => by cases hblock
  length := rfl
  writeOffset := by
    change o.writeOffset = _
    rw [h.writeOffset]
    omega
  window := Nat.le_add_right _ _
  lt := Nat.mod_lt _ (by decide)
  room := by
    have hdvd : params.queueSize ∣ 2 ^ 64 := params.dvd.trans (Nat.pow_dvd_pow 2 (by decide))
    rw [Nat.mod_mod_of_dvd _ hdvd]
    exact h.room hroom

/-- A message that does not fit an empty ring with one more header is never
claimed: every round reserves the rest of the ring. -/
theorem claimBuffer_ne_ok (haccepted : checkSize params size = .ok ())
    (hroom : sizeofMessageHeader ≤ params.queueSize) (hlarge : params.queueSize < size + 36)
    (fuel : Nat) (span : WriterSpan) :
    claimBuffer params readers fuel s size ≠ some (.ok span, t) := by
  have hskip : ∀ w, needsSkip params.queueSize w size = true := by
    intro w
    rw [needsSkip_iff]
    omega
  induction fuel generalizing s with
  | zero =>
    intro h
    cases h
  | succ fuel ih =>
    rw [claimBuffer_succ haccepted hroom]
    cases waitLoop readers params.queueSize (s.writeOffset +
        bytesToBump params.queueSize s.writeOffset (size + 18)) fuel
        (s.reserved params.queueSize size) with
    | none =>
      intro h
      cases h
    | some u =>
      rw [Option.bind_some, hskip, if_pos rfl]
      exact ih

theorem sameRound_of_waitLoop {u : ClaimState} {fuel : Nat}
    (h : waitLoop readers Q w fuel s = some u) : s.SameRound u := by
  induction fuel generalizing s with
  | zero => cases h
  | succ fuel ih =>
    rw [waitLoop] at h
    split at h
    · exact (ClaimState.sameRound_load readers s).trans (ih h)
    · cases h
      exact ClaimState.sameRound_load readers s

theorem wrapped_of_waitForNextWriteOffset {u : ClaimState} {fuel total : Nat}
    {wrapper : UnpackedReadersAndWriterOffset}
    (h : waitForNextWriteOffset readers Q fuel s total = some (wrapper, u)) :
    u.wrapped = s.wrapped := by
  obtain ⟨v, hv, heq⟩ := Option.map_eq_some_iff.mp h
  cases heq
  exact (sameRound_of_waitLoop hv).wrapped

/-- Without room for a header the size check itself wraps around. -/
theorem wrapped_of_claimBuffer (hsmall : params.queueSize < sizeofMessageHeader) {fuel : Nat}
    {result : Except String WriterSpan} (h : claimBuffer params readers fuel s size =
      some (result, t)) : t.wrapped = true := by
  have hflag : ∀ b : Bool, (b || decide (params.queueSize < sizeofMessageHeader)) = true := by
    intro b
    rw [decide_eq_true hsmall, Bool.or_true]
  induction fuel generalizing s with
  | zero => cases h
  | succ fuel ih =>
    rw [claimBuffer] at h
    cases haccepted : checkSize params size with
    | error what =>
      rw [haccepted] at h
      cases h
      exact hflag s.wrapped
    | ok _ =>
      rw [haccepted] at h
      obtain ⟨⟨wrapper, u⟩, hwait, hrest⟩ := Option.bind_eq_some_iff.mp h
      have hu : u.wrapped = true := (wrapped_of_waitForNextWriteOffset hwait).trans (hflag _)
      dsimp only at hrest
      split at hrest
      · exact ih hrest
      · cases hrest
        exact hu

/-- An accepted claim completes, however fast the readers release, if and only if
its message fits an empty ring with one more header and starts in the range of
the write offset. -/
theorem claim_completes_iff
    (hreach : Reach (offsetStep params) (fun _ _ => True) Offsets.init o)
    (haccepted : checkSize params size = .ok ()) (mem : Memory) :
    (∀ readers, readers.KeepsReleasing → ClaimCompletes params readers (.start mem o) size) ↔
      size + 36 ≤ params.queueSize ∧
        messageStart params.queueSize (o.reservedBytes % 2 ^ 64) size < 2 ^ 56 := by
  have hinv := Offsets.Inv.of_reach hreach
  constructor
  · intro hall
    let readers : ReaderSchedule := ⟨fun _ => 1, fun _ m => m⟩
    have hkeeps : readers.KeepsReleasing := fun n => ⟨n, Nat.le_refl n, Nat.one_pos⟩
    obtain ⟨fuel, span, t, ht, -, -, -, hwrapped⟩ := hall readers hkeeps
    have hheader : sizeofMessageHeader ≤ params.queueSize := by
      by_contra hsmall
      rw [wrapped_of_claimBuffer (by omega) ht] at hwrapped
      cases hwrapped
    have hfits : size + 36 ≤ params.queueSize := by
      by_contra hlarge
      exact claimBuffer_ne_ok haccepted hheader (by omega) fuel span ht
    exact ⟨hfits, ((hinv.at_start mem hheader).of_claimBuffer haccepted hfits ht).range⟩
  · rintro ⟨hfits, hrange⟩ readers hkeeps
    have hheader : sizeofMessageHeader ≤ params.queueSize := by
      unfold sizeofMessageHeader
      omega
    have hstart := hinv.at_start mem hheader
    have hend : messageStart params.queueSize (o.reservedBytes % 2 ^ 64) size + (size + 18) ≤
        stopAt [] (o.reservedBytes % 2 ^ 64)
          (messageStart params.queueSize (o.reservedBytes % 2 ^ 64) size) + params.queueSize := by
      rw [stopAt, if_pos rfl]
      omega
    obtain ⟨n, span, t, hreturn⟩ := hstart.exists_claimBuffer haccepted hfits hkeeps hrange hend
    have ht := hreturn (n + 1) (Nat.lt_succ_self n)
    have hclaimed := hstart.of_claimBuffer haccepted hfits ht
    refine ⟨n + 1, span, t, ht, hclaimed.skips, ?_, ?_, hclaimed.wrapped⟩
    · rw [hclaimed.region]
    · rw [hclaimed.region]
      have hregion := messageStart_mod_add_le params.pos hfits (o.reservedBytes % 2 ^ 64)
      unfold sizeofMessageHeader
      dsimp only
      omega

end

/-- A message of 28 bytes behind one of 28 bytes in a ring of 64 bytes. -/
theorem claim_completes_behind_skip : ∃ o : Offsets, o.reservedBytes = 46 ∧
    ∀ readers, readers.KeepsReleasing → ClaimCompletes ⟨64, true, by decide, by decide⟩ readers
      (.start (fun _ => 0) o) 28 := by
  let params : IpcQueueParameters := ⟨64, true, by decide, by decide⟩
  have haccepted : checkSize params 28 = .ok () := checkSize_eq_ok_iff.mpr (by decide)
  have hstep : offsetStep params Offsets.init (.reserve 28) = some (Offsets.init.reserve 64 28) := by
    rw [offsetStep, haccepted]
    rfl
  have hreach : Reach (offsetStep params) (fun _ _ => True) Offsets.init
      (Offsets.init.reserve 64 28) := (Reach.refl Offsets.init).next trivial hstep
  have hbytes : (Offsets.init.reserve 64 28).reservedBytes = 46 := by decide +kernel
  refine ⟨Offsets.init.reserve 64 28, hbytes, ?_⟩
  refine (claim_completes_iff hreach haccepted _).mpr ⟨by decide, ?_⟩
  rw [hbytes]
  decide

/-- A message of 40 bytes is accepted in a ring of 64 bytes and never claimed. -/
theorem claim_never_completes : ∃ params : IpcQueueParameters, params.queueSize = 64 ∧
    checkSize params 40 = .ok () ∧ ∃ readers : ReaderSchedule, readers.KeepsReleasing ∧
      ¬ ClaimCompletes params readers (.start (fun _ => 0) Offsets.init) 40 := by
  let params : IpcQueueParameters := ⟨64, true, by decide, by decide⟩
  have haccepted : checkSize params 40 = .ok () := checkSize_eq_ok_iff.mpr (by decide)
  refine ⟨params, rfl, haccepted, ⟨fun _ => 1, fun _ m => m⟩,
    fun n => ⟨n, Nat.le_refl n, Nat.one_pos⟩, ?_⟩
  rintro ⟨fuel, span, t, ht, -⟩
  exact claimBuffer_ne_ok haccepted (by decide) (by decide) fuel span ht

end MockExchange
