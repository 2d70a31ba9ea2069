import MockExchange.Fifo

/-!
# Aborted claims

A poll that finds the aborted flag releases the block and goes on. Unlike the
branch for a ready flag it does not compare `abs_offset` with the reader's
offset, so a reader a lap ahead releases an aborted block of the lap before once
more. Where the aborted block a poll finds is the one at the reader's offset,
every reader passes every block once.
-/

namespace MockExchange

open ByteMemory Tiling MessageHeader Transition ListUpdate

variable (Q : RingSize) (size : Nat)

/-- One payload size, all readers joined before the first claim and none closes;
claims are committed or aborted. -/
def AbortRun (s : State) (a : Action) : Prop :=
  PollingRun s a ∧ match a with
    | .join => s.log = [] ∧ s.activeReaders < 255
    | .reserve n data => n = size ∧ data.length = n ∧ s.MayReserve Q n data
    | _ => True

/-- A header with the aborted flag carries the offset of the reader that polls it. -/
def AbortedInPlace (s : State) : Action → Prop
  | .poll r => ∀ rd ∈ s.readers[r]?,
    commitFlag s.mem (rd.absReadOffset % Q.bytes) = CommitFlag.aborted.toByte →
      absOffset s.mem (rd.absReadOffset % Q.bytes) = rd.absReadOffset
  | _ => True

instance (s : State) (a : Action) : Decidable (AbortRun Q size s a) := by
  apply Action.casesOn (motive := fun a => Decidable (AbortRun Q size s a)) a <;> intros <;>
    dsimp only [AbortRun] <;> infer_instance

instance (s : State) (a : Action) : Decidable (AbortedInPlace Q s a) := by
  apply Action.casesOn (motive := fun a => Decidable (AbortedInPlace Q s a)) a <;> intros <;>
    dsimp only [AbortedInPlace] <;> infer_instance

/-- Aborted blocks are skipped, each once, and nothing else is lost. -/
structure SkipsAbortedOnce (s : State) : Prop where
  received : ∀ rd ∈ s.readers, rd.received = s.payloadsIn Q 0 rd.cutoff
  holding : ∀ rd ∈ s.readers, ∀ hdr, rd.pc = .holding hdr → s.CommittedAt rd.absReadOffset
  passed : ∀ rd ∈ s.readers, rd.decremented = s.offsetsIn 0 rd.absReadOffset ∧
    rd.decremented.Nodup
  settled : ∀ rd ∈ s.readers, ∀ b ∈ s.log, b.offset < rd.absReadOffset →
    (s.stage b.offset).settled = true
  cleared : ∀ b ∈ s.log, b.offset ∈ s.clears → ∀ rd ∈ s.readers, b.offset ∈ rd.decremented
  served : ∀ rd ∈ s.readers, rd.pc = .idle → s.CommittedAt rd.absReadOffset →
    pollOutcome Q s.mem rd.absReadOffset ≠ .nullopt

section

variable {Q size} {s t : State}

/-- What holds between any two atomic steps of such a run. -/
structure AbortInv (Q : RingSize) (size : Nat) (s : State) : Prop where
  inv : Inv Q s
  uniform : Uniform Q size s
  staying : s.Staying
  joinedFirst : s.JoinedFirst
  clearedOnce : ClearedOnce s
  delivered : Delivered Q s

theorem AbortRun.sound {a : Action} (hrun : AbortRun Q size s a) (hclean : AbortedInPlace Q s a)
    (h : Inv Q s) (hu : Uniform Q size s) (hstay : s.Staying) : Sound Q s a := by
  obtain ⟨hpolling, hrun⟩ := hrun
  refine hpolling.sound h hstay ?_ ?_ ?_
  · rintro rfl
    exact hrun.2
  · rintro n data rfl
    exact hrun.2.2
  · rintro r rfl rd hrd
    exact hu.pollsSettled h (List.mem_of_getElem? hrd) (hclean rd hrd)

theorem AbortInv.init : AbortInv Q size State.init := by
  have hQ := Q.ge_64
  refine ⟨.init, .init (by omega), ?_, ?_, .init, .init⟩ <;>
    simp [State.Staying, State.JoinedFirst, State.init]

theorem AbortInv.step (hi : AbortInv Q size s) {a : Action} (hrun : AbortRun Q size s a)
    (hclean : AbortedInPlace Q s a) (hstep : step Q s a = some t) : AbortInv Q size t := by
  obtain ⟨h, hu, hstay, hfirst, honce, hdel⟩ := hi
  have htaken := Taken.of_step hstep
  have hsound := hrun.sound hclean h hu hstay
  have h' := h.step hsound hstep
  obtain ⟨hpolling, hrun⟩ := hrun
  refine ⟨h', hu.step h h' hsound ?_ htaken, hstay.step htaken.change hpolling.staying,
    hfirst.step h htaken.change ?_, honce.step h h' htaken.change,
    hdel.step h hsound (hpolling.pollsFirst ?_) htaken⟩
  · rintro n data rfl
    exact hrun.1
  · rintro rfl
    exact hrun.1
  · rintro n data rfl
    exact hrun.2.1

theorem unguarded_abort : Unguarded fun s a => AbortRun Q size s a ∧ AbortedInPlace Q s a where
  loadReadOffset := fun _ _ => ⟨⟨trivial, trivial⟩, trivial⟩
  storeHeader := fun _ _ => ⟨⟨trivial, trivial⟩, trivial⟩
  finishSkip := fun _ _ => ⟨⟨trivial, trivial⟩, trivial⟩
  callRelease := fun _ _ _ _ hrd hpc => ⟨⟨.callRelease hrd hpc, trivial⟩, trivial⟩

theorem skipsAbortedOnce (hreach : Reach (opStep Q)
    (OpOk Q fun s a => AbortRun Q size s a ∧ AbortedInPlace Q s a) State.init s) :
    SkipsAbortedOnce Q s := by
  obtain ⟨hreach, -⟩ := reach_of_operations unguarded_abort hreach
  obtain ⟨h, -, hstay, hfirst, honce, hdel⟩ := hreach.invariant AbortInv.init
    (fun s a t hi hok hstep => AbortInv.step hi hok.1 hok.2 hstep)
  have hdec : ∀ rd ∈ s.readers, rd.decremented = s.offsetsIn 0 rd.absReadOffset := by
    intro rd hrd
    rw [(h.reader rd hrd).decremented, hfirst rd hrd]
  refine
    { received := ?_, holding := hdel.holding, passed := ?_, settled := ?_, cleared := ?_,
      served := fun rd hrd hpc => h.pollOutcome_ne_nullopt hrd hpc }
  · intro rd hrd
    rw [hdel.received rd hrd (hstay rd hrd), hfirst rd hrd]
  · intro rd hrd
    rw [hdec rd hrd]
    exact ⟨rfl, h.tiles.nodup.sublist (List.filter_sublist.map _)⟩
  · intro rd hrd b hb hlt
    exact (h.reader rd hrd).settled b hb (by rw [hfirst rd hrd]; omega) hlt
  · intro b hb hcleared
    -- the last `fetch_sub` of a block comes after everybody's
    have hzero : s.pendingCount b.offset = 0 := by
      by_contra hpos
      have hnone := honce.not_yet b hb (Nat.pos_of_ne_zero hpos)
      exact List.count_eq_zero.mp hnone hcleared
    intro rd hrd
    apply (h.decremented_iff hb).mpr hzero rd hrd
    rw [Reader.countedIn_iff, hfirst rd hrd, hstay rd hrd]
    exact ⟨Nat.zero_le _, by simp⟩

end

/-- An aborted claim and a message behind it, seen by two readers: the one that
polls last clears the claim. -/
theorem skipsAbortedOnce_two_readers : ∃ s : State, SkipsAbortedOnce .smallest s ∧
    s.readers.map Reader.received = [[[8]], [[8]]] ∧
      s.readers.map Reader.decremented = [[0], [0]] ∧ s.clears = [0] := by
  let b : Block := ⟨0, 19, 1, 2, [7]⟩
  let c : Block := ⟨19, 19, 1, 2, [8]⟩
  let ops : List Op :=
    [.join, .join, .reserve 1 [7], .finishClaim b, .reserve 1 [8], .abortBuffer b,
      .pollBuffer 1 2, .finishClaim c, .writeToBuffer c, .pollBuffer 0 2, .pollBuffer 1 2]
  have hexec : (exec (opStep .smallest) (OpOk .smallest fun s a =>
      AbortRun .smallest 1 s a ∧ AbortedInPlace .smallest s a) State.init ops).any
      (fun s => decide (s.readers.map Reader.received = [[[8]], [[8]]] ∧
        s.readers.map Reader.decremented = [[0], [0]] ∧ s.clears = [0])) = true := by
    decide +kernel
  obtain ⟨s, hrun, hs⟩ := exists_run_of_exec hexec
  exact ⟨s, skipsAbortedOnce ⟨ops, hrun⟩, of_decide_eq_true hs⟩

/-- Two readers, claims of 28 bytes in 64, the first one aborted. The second
reader skips it and the skip message behind it, meets it again a lap later,
releases it once more and clears it before the first reader got there. -/
theorem aborted_block_released_twice :
    ∃ s, Reach (opStep .smallest) (OpOk .smallest (AbortRun .smallest 28)) State.init s ∧
      ¬ SkipsAbortedOnce .smallest s := by
  let data : List UInt8 := List.replicate 28 7
  let b : Block := ⟨0, 46, 28, 2, data⟩
  let pad : Block := ⟨46, 18, 28, 2, data⟩
  let ops : List Op :=
    [.join, .join, .reserve 28 data, .finishClaim b, .abortBuffer b, .reserve 28 data,
      .finishClaim pad, .pollBuffer 1 4]
  have hexec : (exec (opStep .smallest)
      (OpOk .smallest (AbortRun .smallest 28)) State.init ops).any
      (fun s => decide (∃ rd ∈ s.readers, rd.decremented = [0, 46, 0])) = true := by
    decide +kernel
  obtain ⟨s, hrun, hs⟩ := exists_run_of_exec hexec
  obtain ⟨rd, hrd, hdec⟩ := of_decide_eq_true hs
  refine ⟨s, ⟨ops, hrun⟩, ?_⟩
  intro hskips
  have hnodup := (hskips.passed rd hrd).2
  rw [hdec] at hnodup
  simp at hnodup

end MockExchange
