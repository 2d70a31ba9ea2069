import MockExchange.Uniform

/-!
# Claims before the first reader

A claim made while no reader is joined counts zero readers, so no release ever
moves `read_offset` over it. The watermark catches up with the write offset as
long as every claim finds at least one reader.
-/

namespace MockExchange

open ByteMemory Tiling MessageHeader Transition ListUpdate

variable (Q : RingSize) (size : Nat)

/-- One payload size, joins and claims in any order, no aborts and no closes. -/
def JoinRun (s : State) (a : Action) : Prop :=
  PollingRun s a ∧ match a with
    | .join => s.activeReaders < 255
    | .reserve n data => n = size ∧ data.length ≤ n ∧ (newBlock Q s n data).finish < 2 ^ 56
    | .abortBuffer _ => False
    | _ => True

/-- A claim is only made while a reader is joined. -/
def ReaderPresent (s : State) : Action → Prop
  | .reserve _ _ => 0 < s.activeReaders
  | _ => True

instance (s : State) (a : Action) : Decidable (JoinRun Q size s a) := by
  apply Action.casesOn (motive := fun a => Decidable (JoinRun Q size s a)) a <;> intros <;>
    dsimp only [JoinRun] <;> infer_instance

instance (s : State) (a : Action) : Decidable (ReaderPresent s a) := by
  apply Action.casesOn (motive := fun a => Decidable (ReaderPresent s a)) a <;> intros <;>
    dsimp only [ReaderPresent] <;> infer_instance

/-- No claim is pending or uncommitted. -/
def State.AllCommitted (s : State) : Prop := ∀ b ∈ s.log, s.stage b.offset = .committed

instance (s : State) : Decidable s.AllCommitted := by
  unfold State.AllCommitted; infer_instance

/-- Every reader has released every block at or after its join offset. -/
def State.AllReleased (s : State) : Prop :=
  ∀ rd ∈ s.readers, ∀ b ∈ s.log, rd.joinOffset ≤ b.offset → rd.HasReleased b.offset

/-- Some block was reserved after the first join. -/
def State.ReservedAfterJoin (s : State) : Prop :=
  ∃ b ∈ s.log, ∃ rd ∈ s.readers, rd.joinOffset ≤ b.offset

structure CatchesUp (s : State) : Prop where
  asserts : s.assertsHold = true
  caught_up : s.AllCommitted → s.AllReleased → s.ReservedAfterJoin → s.readOffset = s.writeOffset

section

variable {Q size} {s t : State}

theorem JoinRun.sound {a : Action} (hrun : JoinRun Q size s a) (hpresent : ReaderPresent s a)
    (h : Inv Q s) (hu : Uniform Q size s) (hstay : s.Staying) (hno : s.NoAborts) :
    Sound Q s a := by
  obtain ⟨hpolling, hrun⟩ := hrun
  refine hpolling.sound h hstay ?_ ?_ ?_
  · rintro rfl
    exact hrun
  · rintro n data rfl
    exact ⟨hrun.2.1, hpresent, hrun.2.2⟩
  · rintro r rfl rd hrd
    exact hu.pollsSettled_of_noAborts h hno (List.mem_of_getElem? hrd)

structure JoinInv (Q : RingSize) (size : Nat) (s : State) : Prop where
  inv : Inv Q s
  uniform : Uniform Q size s
  staying : s.Staying
  noAborts : s.NoAborts

theorem JoinInv.init : JoinInv Q size State.init := by
  have hQ := Q.ge_64
  refine ⟨.init, .init (by omega), ?_, ?_⟩ <;> simp [State.Staying, State.NoAborts, State.init]

theorem JoinInv.step (hi : JoinInv Q size s) {a : Action} (hrun : JoinRun Q size s a)
    (hpresent : ReaderPresent s a) (hstep : step Q s a = some t) : JoinInv Q size t := by
  obtain ⟨h, hu, hstay, hno⟩ := hi
  have htaken := Taken.of_step hstep
  have hsound := hrun.sound hpresent h hu hstay hno
  have h' := h.step hsound hstep
  obtain ⟨hpolling, hrun⟩ := hrun
  refine ⟨h', hu.step h h' hsound ?_ htaken, hstay.step htaken.change hpolling.staying,
    hno.step htaken ?_⟩
  · rintro n data rfl
    exact hrun.1
  · rintro b rfl
    exact hrun

/-- The watermark is at the end once every reader has released everything. -/
theorem catchesUp (hreach : Reach (step Q)
    (fun s a => JoinRun Q size s a ∧ ReaderPresent s a) State.init s) : CatchesUp s := by
  obtain ⟨h, -, hstay, -⟩ := hreach.invariant JoinInv.init
    (fun s a t hi hok hstep => JoinInv.step hi hok.1 hok.2 hstep)
  refine ⟨h.asserts, ?_⟩
  intro _ hreleased _
  apply h.readOffset_eq
  · rintro rd hrd ⟨step, hdr, total, hpc⟩
    obtain ⟨c, hc⟩ := (h.reader rd hrd).clearing step hdr total hpc
    have hreturned := (hreleased rd hrd c hc.mem_log hc.joined).2
    exact hreturned ⟨step, hdr, total, hpc⟩ (h.getLast_of_clears hrd hc)
  · intro rd hrd b hb
    rw [Bool.eq_false_iff]
    intro hp
    obtain ⟨hcounted, hnot⟩ := (h.pending_iff hrd hb).mp hp
    exact hnot (hreleased rd hrd b hb (Reader.countedIn_iff.mp hcounted).1).1

end

/-- Two readers join one after the other, with a message in between. -/
theorem catchesUp_late_join :
    ∃ s, CatchesUp s ∧ s.readOffset = 64 ∧ s.writeOffset = 64 := by
  let b : Block := ⟨0, 46, 28, 1, [7]⟩
  let pad : Block := ⟨46, 18, 28, 2, [7]⟩
  let header (b : Block) : List Action :=
    [.loadReadOffset b, .storeHeader b, .storeHeader b, .storeHeader b, .storeHeader b]
  let labels : List Action :=
    [.join, .reserve 28 [7]] ++ header b ++ [.writeToBuffer b, .join, .reserve 28 [7]] ++
      header pad ++ [.finishSkip pad, .poll 1, .releaseStep 1, .poll 0, .callRelease 0] ++
      List.replicate 6 (.releaseStep 0) ++ [.poll 0] ++ List.replicate 6 (.releaseStep 0)
  have hexec : (exec (step .smallest)
      (fun s a => JoinRun .smallest 28 s a ∧ ReaderPresent s a) State.init labels).any
      (fun s => decide (s.readOffset = 64 ∧ s.writeOffset = 64)) = true := by
    decide +kernel
  obtain ⟨s, hrun, hs⟩ := exists_run_of_exec hexec
  exact ⟨s, catchesUp ⟨labels, hrun⟩, of_decide_eq_true hs⟩

/-- A message is committed before the first reader joins. The reader releases the
skip message behind it, and `read_offset` moves to the middle of the message. -/
theorem claim_before_join :
    ∃ s, Reach (step .smallest) (JoinRun .smallest 28) State.init s ∧ ¬ CatchesUp s ∧
      s.readOffset = 18 ∧ s.writeOffset = 64 := by
  let b : Block := ⟨0, 46, 28, 0, [7]⟩
  let pad : Block := ⟨46, 18, 28, 1, [7]⟩
  let header (b : Block) : List Action :=
    [.loadReadOffset b, .storeHeader b, .storeHeader b, .storeHeader b, .storeHeader b]
  let labels : List Action :=
    [.reserve 28 [7]] ++ header b ++ [.writeToBuffer b, .join, .reserve 28 [7]] ++
      header pad ++ [.finishSkip pad, .poll 0] ++ List.replicate 6 (.releaseStep 0)
  have hexec : (exec (step .smallest) (JoinRun .smallest 28) State.init labels).any
      (fun s => decide (s.assertsHold = false ∧ s.readOffset = 18 ∧ s.writeOffset = 64)) =
        true := by
    decide +kernel
  obtain ⟨s, hrun, hs⟩ := exists_run_of_exec hexec
  obtain ⟨hassert, hoffsets⟩ := of_decide_eq_true hs
  refine ⟨s, ⟨labels, hrun⟩, ?_, hoffsets⟩
  intro hcatches
  rw [hcatches.asserts] at hassert
  cases hassert

end MockExchange
