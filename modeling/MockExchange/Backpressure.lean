import MockExchange.LowWatermark

/-!
# Backpressure

Writers reserve first and wait afterwards, so any number of reservations may lie
behind the ring's capacity. However they and the releases interleave, there is
always an agent that can move on: a writer that is past the wait loop, a reader
with something to release, or the first writer in the queue of those that wait.
-/

namespace MockExchange

open Tiling Transition

/-- The first writer in the wait loop. -/
structure State.FirstWaiting (s : State) (b : Block) : Prop where
  waiting : s.AtStage b .waiting
  first : ∀ c, s.AtStage c .waiting → b.offset ≤ c.offset

/-- An agent outside the wait loop has a step to take: a writer that is past it,
a `release_buffer` call in progress, or a reader in front of a committed block. -/
def State.OtherCanMove (s : State) : Prop :=
  (∃ b ∈ s.log, s.stage b.offset ≠ .waiting ∧ s.stage b.offset ≠ .committed) ∨
    (∃ rd ∈ s.readers, rd.pc.isReleasing = true) ∨
    ∃ rd ∈ s.readers, s.CommittedAt rd.absReadOffset

section

variable {Q : RingSize} {s : State} {b c : Block}

theorem State.exists_firstWaiting (hc : s.AtStage c .waiting) : ∃ b, s.FirstWaiting b := by
  classical
  have hex : ∃ off b, s.AtStage b .waiting ∧ b.offset = off := ⟨c.offset, c, hc, rfl⟩
  obtain ⟨b, hb, hoff⟩ := Nat.find_spec hex
  refine ⟨b, hb, ?_⟩
  intro d hd
  rw [hoff]
  exact Nat.find_min' hex ⟨d, hd, rfl⟩

theorem Reader.IsClearing.isReleasing {rd : Reader} (h : rd.isClearing) :
    rd.pc.isReleasing = true := by
  obtain ⟨step, hdr, total, hpc⟩ := h
  rw [hpc]
  rfl

/-- When nobody else can move, all blocks in front of the first waiting one are
released and the watermark is at that block. -/
theorem Inv.readOffset_eq_of_firstWaiting (h : Inv Q s) (hb : s.FirstWaiting b)
    (hstuck : ¬ s.OtherCanMove) : s.readOffset = b.offset := by
  obtain ⟨⟨hlog, hstage⟩, hfirst⟩ := hb
  have hsettled : (s.stage b.offset).settled = false := by rw [hstage]; rfl
  have hle := (h.live_of_unsettled hlog hsettled).1
  -- what lies below the first waiting block is committed
  have hcommitted : ∀ c ∈ s.log, c.offset < b.offset → s.stage c.offset = .committed := by
    intro c hc hlt
    by_contra hne
    refine hstuck (Or.inl ⟨c, hc, ?_, hne⟩)
    intro hwaiting
    have := hfirst c ⟨hc, hwaiting⟩
    omega
  by_contra hne
  have hlt := h.offset_lt hlog
  obtain ⟨c, hc, hstart⟩ := h.mark.exists_of_lt (by omega)
  by_cases hzero : s.pendingCount c.offset = 0
  · obtain ⟨rd, hrd, hclearing, -⟩ := h.cleared c hc (by omega) hzero
    exact hstuck (Or.inr (Or.inl ⟨rd, hrd, Reader.IsClearing.isReleasing hclearing⟩))
  · obtain ⟨rd, hrd, hpending⟩ := State.pendingCount_pos_iff.mp (Nat.pos_of_ne_zero hzero)
    have hpos := (Reader.pending_iff.mp hpending).1
    refine hstuck (Or.inr (Or.inr ⟨rd, hrd, ?_⟩))
    obtain ⟨d, hd, hoff⟩ := (h.reader rd hrd).boundary.exists_of_lt (by omega)
    exact ⟨d, hd, hoff, hoff ▸ hcommitted d hd (by omega)⟩

/-- A block that starts at the watermark fits. -/
theorem Inv.mustWait_eq_false (h : Inv Q s) (hlog : b ∈ s.log) (hmark : s.readOffset = b.offset) :
    mustWait Q s b = false := by
  have hfits := (h.shape b hlog).fits
  rw [mustWait, h.sub64_finish hlog hmark.le, hmark]
  apply decide_eq_false
  unfold Block.finish
  omega

/-- With a writer in the wait loop, the first of them passes its test or
somebody else can move. -/
theorem backpressure_moves (hreach : Reach (step Q) (ReleasesInOrder Q) State.init s)
    (hc : s.AtStage c .waiting) :
    (∃ b, s.FirstWaiting b ∧ mustWait Q s b = false) ∨
      (∃ b ∈ s.log, s.stage b.offset ≠ .waiting ∧ s.stage b.offset ≠ .committed) ∨
      (∃ rd ∈ s.readers, rd.pc.isReleasing = true) ∨
      ∃ rd ∈ s.readers, s.CommittedAt rd.absReadOffset := by
  obtain ⟨h, -, -⟩ := invariant_of_releasesInOrder hreach
  obtain ⟨b, hb⟩ := State.exists_firstWaiting hc
  by_cases hmoves : s.OtherCanMove
  · exact Or.inr hmoves
  · have hmark := h.readOffset_eq_of_firstWaiting hb hmoves
    exact Or.inl ⟨b, hb, h.mustWait_eq_false hb.waiting.1 hmark⟩

end

/-- A ring of 64 bytes with four reservations of 46 and 18 bytes each: the
reader has released the first two, and the third passes. -/
theorem backpressure_moves_full_ring :
    ∃ s : State, s.AtStage ⟨64, 46, 28, 1, []⟩ .waiting ∧
      ((∃ b, s.FirstWaiting b ∧ mustWait .smallest s b = false) ∨
        (∃ b ∈ s.log, s.stage b.offset ≠ .waiting ∧ s.stage b.offset ≠ .committed) ∨
        (∃ rd ∈ s.readers, rd.pc.isReleasing = true) ∨
        ∃ rd ∈ s.readers, s.CommittedAt rd.absReadOffset) := by
  let b : Block := ⟨0, 46, 28, 1, []⟩
  let pad : Block := ⟨46, 18, 28, 1, []⟩
  let c : Block := ⟨64, 46, 28, 1, []⟩
  let store (b : Block) : List Action :=
    [.loadReadOffset b, .storeHeader b, .storeHeader b, .storeHeader b, .storeHeader b]
  let release : List Action := .callRelease 0 :: List.replicate 6 (.releaseStep 0)
  let labels : List Action :=
    [.join, .reserve 28 [], .reserve 28 [], .reserve 28 [], .reserve 28 []] ++
      store b ++ [.writeToBuffer b] ++ store pad ++ [.finishSkip pad] ++ release ++ release
  have hexec : (exec (step .smallest) (ReleasesInOrder .smallest) State.init labels).any
      (fun s => decide (s.AtStage c .waiting)) = true := by
    decide +kernel
  obtain ⟨s, hrun, hs⟩ := exists_run_of_exec hexec
  exact ⟨s, of_decide_eq_true hs, backpressure_moves ⟨labels, hrun⟩ (of_decide_eq_true hs)⟩

end MockExchange
