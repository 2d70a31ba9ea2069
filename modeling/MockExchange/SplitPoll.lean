import MockExchange.Uniform

/-!
# A poll in separate loads

`poll_buffer` loads the commit flag first and `abs_offset` after it. In between
another reader may clear the slot and the next writer may store its offset there
before it commits, so the two loads may belong to two blocks. They do not as
long as the flag is still set when `abs_offset` matches.
-/

namespace MockExchange

open ByteMemory Tiling MessageHeader Transition ListUpdate

variable (Q : RingSize) (size : Nat)

/-- One payload size, all readers joined before the first claim, no aborts and
no closes; polls, header writes and releases in their separate steps. -/
def SplitRun (s : State) : Action → Prop
  | .join => s.log = [] ∧ s.activeReaders < 255
  | .reserve n data => n = size ∧ s.MayReserve Q n data
  | .callRelease r => ∀ rd ∈ s.readers[r]?, rd.pc ≠ .idle
  | .poll _ | .abortBuffer _ | .leave _ | .drain _ => False
  | _ => True

/-- When the second load of a poll finds the reader's offset, the flag the first
load saw is still set. -/
def FlagStillReady (s : State) : Action → Prop
  | .loadAbsOffset r => ∀ rd ∈ s.readers[r]?,
    absOffset s.mem (rd.absReadOffset % Q.bytes) = rd.absReadOffset →
      commitFlag s.mem (rd.absReadOffset % Q.bytes) = CommitFlag.readyForConsumer.toByte
  | _ => True

instance (s : State) (a : Action) : Decidable (SplitRun Q size s a) := by
  apply Action.casesOn (motive := fun a => Decidable (SplitRun Q size s a)) a <;> intros <;>
    dsimp only [SplitRun] <;> infer_instance

instance (s : State) (a : Action) : Decidable (FlagStillReady Q s a) := by
  apply Action.casesOn (motive := fun a => Decidable (FlagStillReady Q s a)) a <;> intros <;>
    dsimp only [FlagStillReady] <;> infer_instance

/-- What a poll returned a wrapper for was committed. -/
def State.HoldsCommitted (s : State) : Prop :=
  ∀ rd ∈ s.readers, ∀ hdr, rd.pc = .holding hdr →
    hdr = rd.absReadOffset % Q.bytes ∧ s.CommittedAt rd.absReadOffset

/-- A reader past a matching second load is in front of a committed block. -/
def State.Matched (s : State) : Prop :=
  ∀ rd ∈ s.readers, rd.pc = .offsetMatched → s.CommittedAt rd.absReadOffset

section

variable {Q size} {s t : State} {rd : Reader}

/-- A committed block stays committed. -/
theorem State.CommittedAt.step {p : Nat} (hc : s.CommittedAt p) (h : Inv Q s) {a : Action}
    (hchange : Change Q s a t) : t.CommittedAt p := by
  obtain ⟨b, hb, rfl, hst⟩ := hc
  cases hchange with
  | reserve =>
    refine ⟨b, List.mem_append_left _ hb, rfl, ?_⟩
    exact (Function.update_of_ne (Nat.ne_of_lt (h.offset_lt hb)) _ _).trans hst
  | @write _ c _ _ _ hcl hunsettled =>
    refine ⟨b, hb, rfl, ?_⟩
    refine (Function.update_of_ne ?_ _ _).trans hst
    intro heq
    rw [← heq, hst] at hunsettled
    cases hunsettled
  | @clearStep r hdr total rd step =>
    obtain ⟨hlog, hstage, -, -⟩ := clearStep_keeps s r rd step hdr total
    rw [State.CommittedAt, hlog, hstage]
    exact ⟨b, hb, rfl, hst⟩
  | join => exact ⟨b, hb, rfl, hst⟩
  | move => exact ⟨b, hb, rfl, hst⟩
  | fetchSub => exact ⟨b, hb, rfl, hst⟩
  | leave => exact ⟨b, hb, rfl, hst⟩

theorem Reader.afterRelease_ne_offsetMatched : rd.afterRelease ≠ .offsetMatched := by
  simp only [Reader.afterRelease]
  split <;> decide

/-- Only a matching second load brings a reader to the third. -/
theorem Taken.mem_of_offsetMatched {a : Action} (htaken : Taken Q s a t)
    (hnot : ∀ r, a ≠ .loadAbsOffset r) {x : Reader} (hx : x ∈ t.readers)
    (hpc : x.pc = .offsetMatched) : x ∈ s.readers := by
  have hset : ∀ {r : Nat} {rd' : Reader}, x ∈ s.readers.set r rd' → rd'.pc ≠ .offsetMatched →
      x ∈ s.readers := by
    intro r rd' hx hne
    rcases List.mem_or_eq_of_mem_set hx with hx | rfl
    · exact hx
    · exact absurd hpc hne
  cases htaken with
  | join =>
    rw [join_readers, List.mem_append, List.mem_singleton] at hx
    rcases hx with hx | rfl
    · exact hx
    · cases hpc
  | reserve => exact hx
  | loadReadOffset =>
    simp only [MockExchange.loadReadOffset] at hx
    split at hx <;> exact hx
  | storeHeader hb hst =>
    obtain ⟨stage', m', heq, -, -, -⟩ := storeHeader_eq (Q := Q) hst
    rw [heq] at hx
    exact hx
  | finishSkip => exact hx
  | writeToBuffer => exact hx
  | abortBuffer => exact hx
  | @poll r rd =>
    simp only [MockExchange.pollHeader] at hx
    split at hx
    · exact hx
    · exact hset hx (by simp)
    · exact hset hx (by simp)
    · exact hset hx (by simp)
  | loadCommitFlag =>
    simp only [MockExchange.loadCommitFlag] at hx
    split at hx
    · exact hset hx (by simp)
    · split at hx
      · exact hset hx (by simp)
      · exact hx
  | loadAbsOffset => exact absurd rfl (hnot _)
  | loadSizeAndType =>
    simp only [MockExchange.loadSizeAndType] at hx
    split at hx
    · exact hset hx (by simp)
    · exact hset hx (by simp)
  | releaseHeld => exact hset hx (by simp)
  | releaseNext => exact hset hx (by simp)
  | fetchSub =>
    refine hset hx ?_
    simp only
    split
    · simp
    · exact Reader.afterRelease_ne_offsetMatched
  | @clearStep r hdr total rd step =>
    cases step with
    | advance => exact hset hx Reader.afterRelease_ne_offsetMatched
    | body => exact hset hx (by simp)
    | size => exact hset hx (by simp)
    | type => exact hset hx (by simp)
    | flag => exact hset hx (by simp)
  | leave => exact hset hx (by simp)
  | drain =>
    simp only [MockExchange.drain] at hx
    split at hx
    · exact hset hx (by simp)
    · exact hset hx (by simp)

/-- The flag and the offset of a committed block, read together. -/
theorem Uniform.committedAt (hu : Uniform Q size s) (h : Inv Q s) (hrd : rd ∈ s.readers)
    (hflag : commitFlag s.mem (rd.absReadOffset % Q.bytes) = CommitFlag.readyForConsumer.toByte)
    (hoff : absOffset s.mem (rd.absReadOffset % Q.bytes) = rd.absReadOffset) :
    s.CommittedAt rd.absReadOffset := by
  obtain ⟨b, hb, hpos, hst, hval⟩ := hu.settledAt h hrd (by rw [hflag]; decide) hoff
  refine ⟨b, hb, hpos, ?_⟩
  rw [← hpos]
  rcases Stage.settled_iff.mp hst with hcommitted | haborted
  · exact hcommitted
  · rw [hflag, haborted] at hval
    cases hval

theorem loadAbsOffset_readers (s : State) (r : Nat) (rd : Reader) :
    (loadAbsOffset Q s r rd).readers = s.readers.set r { rd with
      pc := if absOffset s.mem (rd.absReadOffset % Q.bytes) ≠ rd.absReadOffset then .idle
        else .offsetMatched } := rfl

theorem State.Matched.step (hm : s.Matched) (h : Inv Q s) (hu : Uniform Q size s) {a : Action}
    (hready : FlagStillReady Q s a) (htaken : Taken Q s a t) : t.Matched := by
  intro x hx hpc
  by_cases hload : ∃ r, a = .loadAbsOffset r
  · obtain ⟨r, rfl⟩ := hload
    have hstable : ∀ {p}, s.CommittedAt p → t.CommittedAt p := fun hc => hc.step h htaken.change
    cases htaken with
    | @loadAbsOffset r rd hrd hpc' =>
      rw [loadAbsOffset_readers] at hx
      rcases List.mem_or_eq_of_mem_set hx with hold | hnew
      · exact hstable (hm x hold hpc)
      · have hpos : x.absReadOffset = rd.absReadOffset := by rw [hnew]
        have hoff : absOffset s.mem (rd.absReadOffset % Q.bytes) = rd.absReadOffset := by
          by_contra hne
          rw [hnew] at hpc
          simp [hne] at hpc
        rw [hpos]
        exact hstable (hu.committedAt h (List.mem_of_getElem? hrd) (hready rd hrd hoff) hoff)
  · have hold := htaken.mem_of_offsetMatched (fun r hr => hload ⟨r, hr⟩) hx hpc
    exact (hm x hold hpc).step h htaken.change

theorem SplitRun.sound {a : Action} (hrun : SplitRun Q size s a) (h : Inv Q s)
    (hu : Uniform Q size s) (hstay : s.Staying) (hno : s.NoAborts) (hm : s.Matched)
    (htaken : Taken Q s a t) : Sound Q s a := by
  cases htaken with
  | join => exact hrun.2
  | reserve => exact hrun.2
  | loadCommitFlag hrd =>
    intro rd' hrd' haborted
    obtain ⟨b, hb, -, hst⟩ := hu.aborted_of_flag h (List.mem_of_getElem? hrd') haborted
    exact absurd hst (hno b hb)
  | loadSizeAndType hrd hpc =>
    intro rd' hrd'
    rw [hrd, Option.mem_some_iff] at hrd'
    subst hrd'
    exact (hm _ (List.mem_of_getElem? hrd) hpc).settledAt
  | releaseHeld =>
    intro rd' hrd' hidle
    exact absurd hidle (hrun rd' hrd')
  | releaseNext =>
    intro rd' hrd' hidle
    exact absurd hidle (hrun rd' hrd')
  | fetchSub =>
    intro rd' hrd'
    exact h.advancesTo hstay (List.mem_of_getElem? hrd')
  | clearStep =>
    intro rd' hrd'
    exact h.advancesTo hstay (List.mem_of_getElem? hrd')
  | poll => exact hrun.elim
  | drain => exact hrun.elim
  | loadReadOffset => trivial
  | storeHeader => trivial
  | finishSkip => trivial
  | writeToBuffer => trivial
  | abortBuffer => trivial
  | loadAbsOffset => trivial
  | leave => trivial

/-- Never an uncommitted read, as long as flag and offset are seen together. -/
theorem holdsCommitted_of_flagStillReady (hreach : Reach (step Q)
    (fun s a => SplitRun Q size s a ∧ FlagStillReady Q s a) State.init s) :
    s.HoldsCommitted Q := by
  have hinit : Inv Q State.init ∧ Uniform Q size State.init ∧ State.init.Staying ∧
      State.init.NoAborts ∧ State.init.Matched := by
    refine ⟨.init, .init (by have := Q.ge_64; omega), ?_, ?_, ?_⟩ <;>
      simp [State.Staying, State.NoAborts, State.Matched, State.init]
  have hall := hreach.invariant (P := fun s => Inv Q s ∧ Uniform Q size s ∧ s.Staying ∧
    s.NoAborts ∧ s.Matched) hinit (by
      rintro s a t ⟨h, hu, hstay, hno, hm⟩ ⟨hrun, hready⟩ hstep
      have htaken := Taken.of_step hstep
      have hsound := hrun.sound h hu hstay hno hm htaken
      have h' := h.step hsound hstep
      refine ⟨h', hu.step h h' hsound ?_ htaken, hstay.step htaken.change ?_,
        hno.step htaken ?_, hm.step h hu hready htaken⟩
      · rintro n data rfl
        exact hrun.1
      · rintro r rfl
        exact hrun
      · rintro b rfl
        exact hrun)
  obtain ⟨h, -, -, hno, -⟩ := hall
  intro rd hrd hdr hpc
  obtain ⟨b, hb⟩ := (h.reader rd hrd).owns hdr (Or.inl hpc)
  refine ⟨by rw [hb.hdr_eq, hb.position]; rfl, b, hb.mem_log, hb.position.symm, ?_⟩
  rw [hb.position]
  rcases Stage.settled_iff.mp hb.settled with hcommitted | haborted
  · exact hcommitted
  · exact absurd haborted (hno b hb.mem_log)

end

/-- Between the loads of the first reader the second one is handed the same
message and gives it up, and a claim behind it stores the header of its skip
message. -/
theorem holdsCommitted_interleaved : ∃ s : State, s.HoldsCommitted .smallest ∧
    s.readers.map Reader.pc = [.holding 0, .idle] ∧ s.stage 46 = .sizeStored ∧
      s.readers.map Reader.received = [[List.replicate 28 7], [List.replicate 28 7]] := by
  let b : Block := ⟨0, 46, 28, 2, List.replicate 28 7⟩
  let pad : Block := ⟨46, 18, 28, 2, []⟩
  let labels : List Action :=
    [.join, .join, .reserve 28 b.data, .loadReadOffset b, .storeHeader b, .storeHeader b,
      .storeHeader b, .storeHeader b, .writeToBuffer b, .loadCommitFlag 0, .loadCommitFlag 1,
      .reserve 28 [], .loadReadOffset pad, .loadAbsOffset 1, .storeHeader pad, .loadSizeAndType 1,
      .loadAbsOffset 0, .callRelease 1, .storeHeader pad, .releaseStep 1, .loadSizeAndType 0]
  have hexec : (exec (step .smallest)
      (fun s a => SplitRun .smallest 28 s a ∧ FlagStillReady .smallest s a) State.init labels).any
      (fun s => decide (s.readers.map Reader.pc = [.holding 0, .idle] ∧ s.stage 46 = .sizeStored ∧
        s.readers.map Reader.received = [[List.replicate 28 7], [List.replicate 28 7]])) = true := by
    decide +kernel
  obtain ⟨s, hrun, hs⟩ := exists_run_of_exec hexec
  exact ⟨s, holdsCommitted_of_flagStillReady ⟨labels, hrun⟩, of_decide_eq_true hs⟩

/-- Two readers and messages of 28 bytes in 64. The second reader is a lap ahead
and loads the flag of the first block; the first reader releases it, the writer
of the block at 64 stores its offset in the same place, and the second reader's
next load matches: it is handed the block at 64 before its writer wrote the
message size. -/
theorem wrapper_before_commit :
    ∃ s, Reach (step .smallest) (SplitRun .smallest 28) State.init s ∧
      ¬ s.HoldsCommitted .smallest := by
  let b : Block := ⟨0, 46, 28, 2, [7]⟩
  let pad : Block := ⟨46, 18, 28, 2, [7]⟩
  let c : Block := ⟨64, 46, 28, 2, [7]⟩
  let polled (r : Nat) : List Action := [.loadCommitFlag r, .loadAbsOffset r, .loadSizeAndType r]
  let header (b : Block) : List Action :=
    [.loadReadOffset b, .storeHeader b, .storeHeader b, .storeHeader b, .storeHeader b]
  let labels : List Action :=
    [.join, .join, .reserve 28 [7]] ++ header b ++ [.writeToBuffer b, .reserve 28 [7]] ++
      header pad ++ [.finishSkip pad] ++
      polled 1 ++ [.callRelease 1, .releaseStep 1] ++ polled 1 ++ [.releaseStep 1] ++
      [.loadCommitFlag 1, .reserve 28 [7]] ++
      polled 0 ++ [.callRelease 0] ++ List.replicate 6 (.releaseStep 0) ++
      polled 0 ++ List.replicate 6 (.releaseStep 0) ++
      [.loadReadOffset c, .storeHeader c, .loadAbsOffset 1, .loadSizeAndType 1]
  have hexec : (exec (step .smallest) (SplitRun .smallest 28) State.init labels).any
      (fun s => decide (s.stage 64 = .offsetStored ∧ ∃ rd ∈ s.readers,
        rd.pc = .holding 0 ∧ rd.absReadOffset = 64)) = true := by
    decide +kernel
  obtain ⟨s, hrun, hs⟩ := exists_run_of_exec hexec
  obtain ⟨hstage, rd, hrd, hpc, hpos⟩ := of_decide_eq_true hs
  refine ⟨s, ⟨labels, hrun⟩, ?_⟩
  intro hholds
  obtain ⟨-, -, -, -, hcommitted⟩ := hholds rd hrd 0 hpc
  rw [hpos, hstage] at hcommitted
  cases hcommitted

end MockExchange
