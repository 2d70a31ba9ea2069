import MockExchange.Clearing

/-!
# Free bytes of the ring

Between two operations a byte of the ring that no live block occupies is zero,
as long as no poll takes other bytes for a header and no release leaves a trace.
Then an admitted block's flag is clear, a poll at the write offset finds nothing,
and what a writer leaves unwritten reads as zero.
-/

namespace MockExchange

open ByteMemory Tiling MessageHeader Transition ListUpdate

variable (Q : RingSize)

/-- The condition under which the free bytes stay zero. -/
def CleanStep (s : State) (a : Action) : Prop :=
  ClearingRun Q s a ∧ NoStaleHeader Q s a ∧ LeavesNoTrace Q s a

instance (s : State) (a : Action) : Decidable (CleanStep Q s a) := by
  unfold CleanStep; infer_instance

/-- The bytes of the ring `b` occupies do not meet `[lo, lo + n)`. -/
def Block.Avoids (b : Block) (lo n : Nat) : Prop :=
  lo + n ≤ b.hdr Q ∨ b.hdr Q + b.length ≤ lo

structure FreeBytesZero (s : State) : Prop where
  free : ∀ x < Q.bytes,
    (∀ b ∈ s.log, ¬ s.Released b.offset → b.Avoids Q x 1) → s.mem x = 0
  admitted : ∀ b ∈ s.log, s.stage b.offset ≠ .waiting → (s.stage b.offset).settled = false →
    commitFlag s.mem (b.hdr Q) = CommitFlag.notReady.toByte
  at_end : ∀ r rd, s.readers[r]? = some rd → rd.absReadOffset = s.writeOffset →
    (∀ b ∈ s.log, ¬ s.Released b.offset → b.Avoids Q (s.writeOffset % Q.bytes) 18) ∨
      NoStaleHeader Q s (.poll r) →
    ∀ fuel, pollBuffer Q (fuel + 1) s r = some s
  unwritten : ∀ b ∈ s.log, s.stage b.offset = .committed → b.isPadding Q = false →
    ¬ s.Released b.offset → payload s.mem (b.hdr Q) b.size =
      b.data ++ List.replicate (b.size - b.data.length) 0

section

variable {Q} {s t : State} {b c : Block} {r : Nat} {rd : Reader}

structure ClearingInv (Q : RingSize) (s : State) : Prop where
  inv : Inv Q s
  staying : s.Staying
  cleared : Cleared Q s

theorem ClearingInv.init : ClearingInv Q State.init :=
  ⟨.init, by simp [State.Staying, State.init], .init⟩

theorem ClearingInv.step (hi : ClearingInv Q s) {a : Action} (hok : CleanStep Q s a)
    (hstep : step Q s a = some t) : ClearingInv Q t := by
  obtain ⟨h, hstay, hz⟩ := hi
  obtain ⟨hrun, hnostale, hclean⟩ := hok
  have htaken := Taken.of_step hstep
  have hsound : Sound Q s a := by
    refine hrun.1.sound h hstay ?_ ?_ ?_
    · rintro rfl
      exact hrun.2.2
    · rintro size data rfl
      exact hrun.2.2
    · rintro r rfl rd hrd
      exact hnostale.pollsSettled hrd
  have h' := h.step hsound hstep
  exact ⟨h', hstay.step htaken.change hrun.1.staying, hz.step h h' hstay hrun hclean htaken⟩

theorem unguarded_clean : Unguarded (CleanStep Q) where
  loadReadOffset := fun _ _ => ⟨⟨trivial, trivial⟩, trivial, trivial⟩
  storeHeader := fun _ _ => ⟨⟨trivial, trivial⟩, trivial, trivial⟩
  finishSkip := fun _ _ => ⟨⟨trivial, trivial⟩, trivial, trivial⟩
  callRelease := fun _ _ _ _ hrd hpc => ⟨⟨.callRelease hrd hpc, trivial⟩, trivial, trivial⟩

theorem State.Quiet.not_clearing (hq : s.Quiet) (hrd : rd ∈ s.readers) : ¬ rd.isClearing := by
  rintro ⟨step, hdr, total, hpc⟩
  rcases (hq rd hrd).2 with hidle | ⟨hdr', hheld⟩
  · rw [hpc] at hidle
    cases hidle
  · rw [hpc] at hheld
    cases hheld

/-- Between operations a block is released when nobody owes it. -/
theorem Inv.released_iff (h : Inv Q s) (hq : s.Quiet) (hb : b ∈ s.log) :
    s.Released b.offset ↔ s.pendingCount b.offset = 0 := by
  rw [← h.decremented_iff hb]
  constructor
  · intro hreleased rd hrd hcounted
    exact (hreleased rd hrd hcounted).1
  · intro hdec rd hrd hcounted
    exact ⟨hdec rd hrd hcounted, fun hclearing => absurd hclearing (hq.not_clearing hrd)⟩

theorem Inv.not_released (h : Inv Q s) (hq : s.Quiet) (hb : b ∈ s.log)
    (hlive : s.readOffset ≤ b.offset) : ¬ s.Released b.offset := by
  rw [h.released_iff hq hb]
  intro hnone
  obtain ⟨rd, hrd, hclearing, -⟩ := h.cleared b hb hlive hnone
  exact hq.not_clearing hrd hclearing

/-- Every byte of the ring is at the place of one offset of the window. -/
theorem exists_in_window (R : Nat) {x n : Nat} (hx : x < n) :
    ∃ y, R ≤ y ∧ y < R + n ∧ y % n = x := by
  have hdiv := Nat.div_add_mod R n
  have hmod := Nat.mod_lt R (Nat.zero_lt_of_lt hx)
  rcases Nat.lt_or_ge x (R % n) with hlt | hge
  · refine ⟨n * (R / n + 1) + x, ?_, ?_, ?_⟩
    · rw [Nat.mul_add]
      omega
    · rw [Nat.mul_add]
      omega
    · rw [Nat.mul_add_mod, Nat.mod_eq_of_lt hx]
  · refine ⟨n * (R / n) + x, by omega, by omega, ?_⟩
    rw [Nat.mul_add_mod, Nat.mod_eq_of_lt hx]

theorem ClearingInv.free (hi : ClearingInv Q s) (hq : s.Quiet) {x : Nat} (hx : x < Q.bytes)
    (hout : ∀ b ∈ s.log, ¬ s.Released b.offset → b.Avoids Q x 1) : s.mem x = 0 := by
  obtain ⟨h, -, hz⟩ := hi
  obtain ⟨y, hlo, hhi, rfl⟩ := exists_in_window s.readOffset hx
  rcases Nat.lt_or_ge y s.writeOffset with hlt | hge
  · obtain ⟨b, hb, hstart, hend⟩ := h.tiles.cover (Nat.zero_le y) hlt
    have hlive : s.readOffset ≤ b.offset := by
      by_contra hold
      have := h.tiles.end_le_boundary hb h.mark (by omega)
      omega
    obtain ⟨i, rfl⟩ := Nat.exists_eq_add_of_le hstart
    have havoids := hout b hb (h.not_released hq hb hlive)
    rw [(h.shape b hb).addr (by omega)] at havoids
    simp only [Block.Avoids] at havoids
    omega
  · exact hz.free y hge hhi

theorem ClearingInv.poll_at_end (hi : ClearingInv Q s) (hq : s.Quiet)
    (hrd : s.readers[r]? = some rd) (hend : rd.absReadOffset = s.writeOffset)
    (hclear : (∀ b ∈ s.log, ¬ s.Released b.offset → b.Avoids Q (s.writeOffset % Q.bytes) 18) ∨
      NoStaleHeader Q s (.poll r)) : pollOutcome Q s.mem rd.absReadOffset = .nullopt := by
  rcases hclear with hfree | hnostale
  · have hroom := hi.inv.room
    have hflag : commitFlag s.mem (rd.absReadOffset % Q.bytes) = 0 := by
      rw [hend]
      refine hi.free hq (by omega) ?_
      intro b hb hnot
      have havoids := hfree b hb hnot
      simp only [Block.Avoids] at havoids ⊢
      omega
    simp only [pollOutcome, hflag]
    rfl
  · by_contra hout
    obtain ⟨b, hb, hoff, -⟩ := hnostale.pollsSettled hrd hout
    have := hi.inv.offset_lt hb
    omega

/-- What a writer left unwritten reads as zero. -/
theorem ClearingInv.payload_eq (hi : ClearingInv Q s) (hb : b ∈ s.log)
    (hst : s.stage b.offset = .committed) (hpad : b.isPadding Q = false)
    (hpos : 0 < s.pendingCount b.offset) : payload s.mem (b.hdr Q) b.size =
      b.data ++ List.replicate (b.size - b.data.length) 0 := by
  obtain ⟨h, -, hz⟩ := hi
  have hshape := h.shape b hb
  have hdata := hshape.data_le
  have hsettled : (s.stage b.offset).settled = true := by rw [hst]; rfl
  have hwindow := h.window_of_settled hb hsettled
  obtain ⟨rd, hrd, hp⟩ := State.pendingCount_pos_iff.mp hpos
  have hwritten := (h.block b hb (h.owed rd hrd b hb hp)).data hst hpad hpos
  have hlen : b.length = b.size + 18 := by
    rcases hshape.cases with ⟨-, hlen, -⟩ | ⟨hpad', -, -⟩
    · exact hlen
    · rw [hpad] at hpad'
      cases hpad'
  have hrest : s.mem.bytes (b.hdr Q + 18 + b.data.length) (b.size - b.data.length) =
      List.replicate (b.size - b.data.length) 0 := by
    apply Memory.bytes_eq_replicate
    intro i hlo hhi
    obtain ⟨k, rfl⟩ := Nat.exists_eq_add_of_le hlo
    have hzero := hz.unwritten b hb hpad hpos (18 + b.data.length + k) (by omega) (by omega)
      (by simp only [Block.finish] at hwindow; omega)
    rwa [← Nat.add_assoc, ← Nat.add_assoc] at hzero
  calc payload s.mem (b.hdr Q) b.size
      = s.mem.bytes (b.hdr Q + 18) (b.data.length + (b.size - b.data.length)) := by
        rw [Nat.add_sub_cancel' hdata]
        rfl
    _ = payload s.mem (b.hdr Q) b.data.length ++
          s.mem.bytes (b.hdr Q + 18 + b.data.length) (b.size - b.data.length) :=
        Memory.bytes_add _ _
    _ = b.data ++ List.replicate (b.size - b.data.length) 0 := by rw [hwritten, hrest]

/-- Free ring bytes are zero. -/
theorem freeBytesZero (hreach : Reach (opStep Q) (OpOk Q (CleanStep Q)) State.init s) :
    FreeBytesZero Q s := by
  obtain ⟨hatomic, hq⟩ := reach_of_operations unguarded_clean hreach
  have hi : ClearingInv Q s :=
    hatomic.invariant .init (fun _ _ _ hi hok hstep => hi.step hok hstep)
  have h := hi.inv
  refine ⟨fun x hx hout => hi.free hq hx hout, ?_, ?_, ?_⟩
  · intro b hb hadmitted hunsettled
    have hlen := (h.shape b hb).length_ge
    have hwindow := h.window b hb hadmitted
    simp only [Block.finish] at hwindow
    exact hi.cleared.flag b hb hunsettled (by omega)
  · intro r rd hrd hend hclear fuel
    have hout := hi.poll_at_end hq hrd hend hclear
    simp [pollBuffer, hrd, hout]
  · intro b hb hst hpad hnot
    refine hi.payload_eq hb hst hpad (Nat.pos_of_ne_zero ?_)
    intro hnone
    exact hnot ((h.released_iff hq hb).mpr hnone)

end

/-- Two readers release two messages and the skip message behind them. The next
lap's first message is held by both; of the three bytes claimed behind it two
are written, over where the second message was. -/
theorem freeBytesZero_wrapped : ∃ s : State, FreeBytesZero .smallest s ∧ s.readOffset = 64 ∧
    s.stage 83 = .committed ∧ s.readers.map Reader.pc = [.holding 0, .holding 0] := by
  let b : Block := ⟨0, 19, 1, 2, [7]⟩
  let c : Block := ⟨19, 19, 1, 2, [7]⟩
  let pad : Block := ⟨38, 26, 1, 2, [7]⟩
  let d : Block := ⟨64, 19, 1, 2, [7]⟩
  let e : Block := ⟨83, 21, 3, 2, [8, 9]⟩
  let released (r : Nat) : List Op := [.pollBuffer r 1, .releaseBuffer r]
  let ops : List Op :=
    [.join, .join, .reserve 1 [7], .reserve 1 [7], .reserve 1 [7], .reserve 1 [7],
      .reserve 3 [8, 9], .finishClaim b, .finishClaim c, .finishClaim pad, .writeToBuffer b,
      .writeToBuffer c] ++ released 0 ++ released 1 ++ [.finishClaim d, .writeToBuffer d] ++
      released 1 ++ released 0 ++ [.pollBuffer 0 2, .pollBuffer 1 2, .finishClaim e,
      .writeToBuffer e]
  have hexec : (exec (opStep .smallest) (OpOk .smallest (CleanStep .smallest)) State.init
      ops).any (fun s => decide (s.readOffset = 64 ∧ s.stage 83 = .committed ∧
        s.readers.map Reader.pc = [.holding 0, .holding 0])) = true := by
    decide +kernel
  obtain ⟨s, hrun, hs⟩ := exists_run_of_exec hexec
  exact ⟨s, freeBytesZero ⟨ops, hrun⟩, of_decide_eq_true hs⟩

/-- Two messages of one byte are read and released. Byte 19 of the ring, the
first byte of the second message's `abs_offset`, is still 19. -/
theorem abs_offset_left_behind :
    ∃ s, Reach (opStep .smallest) (OpOk .smallest (ClearingRun .smallest)) State.init s ∧
      ¬ FreeBytesZero .smallest s ∧ s.mem 19 = 19 := by
  let b : Block := ⟨0, 19, 1, 1, [7]⟩
  let c : Block := ⟨19, 19, 1, 1, [8]⟩
  let ops : List Op :=
    [.join, .reserve 1 [7], .reserve 1 [8], .finishClaim b, .finishClaim c, .writeToBuffer b,
      .writeToBuffer c, .pollBuffer 0 1, .releaseBuffer 0, .pollBuffer 0 1, .releaseBuffer 0]
  have hexec : (exec (opStep .smallest) (OpOk .smallest (ClearingRun .smallest)) State.init
      ops).any (fun s => decide (s.mem 19 = 19 ∧ s.log = [b, c] ∧
        ∀ rd ∈ s.readers, rd.pc = .idle ∧ rd.decremented = [0, 19])) = true := by
    decide +kernel
  obtain ⟨s, hrun, hs⟩ := exists_run_of_exec hexec
  obtain ⟨hbyte, hlog, hreaders⟩ := of_decide_eq_true hs
  refine ⟨s, ⟨ops, hrun⟩, ?_, hbyte⟩
  intro hfree
  have hzero := hfree.free 19 (by decide) ?_
  · rw [hbyte] at hzero
    cases hzero
  · intro d hd hnot
    refine absurd ?_ hnot
    intro rd hrd _
    obtain ⟨hpc, hdec⟩ := hreaders rd hrd
    refine ⟨?_, ?_⟩
    · rw [hlog, List.mem_pair] at hd
      rw [hdec]
      rcases hd with rfl | rfl
      · decide
      · decide
    · rintro ⟨step, hdr, total, hclearing⟩
      rw [hpc] at hclearing
      cases hclearing

end MockExchange
