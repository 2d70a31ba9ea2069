import MockExchange.Delivery

/-!
# Readers that close

`close` leaves with one CAS and then drains: it releases block after block while
it finds a ready flag at or before the offset the CAS observed. The loop head
looks at nothing but the flag byte, so it stops short at a block that is not
committed yet or was aborted, and it goes one block too far when the flag at the
offset itself is set. `DrainsExactly` is the condition under which it does
neither.
-/

namespace MockExchange

open ByteMemory Tiling MessageHeader Transition ListUpdate

variable (Q : RingSize)

/-- Runs with closing readers: polls and the loop head of a drain are one step,
a reader releases what a poll handed it, writers fill what they claimed. -/
def ClosingRun (s : State) : Action → Prop
  | .join => s.activeReaders < 255
  | .reserve size data => data.length = size ∧ (newBlock Q s size data).finish < 2 ^ 56
  | .callRelease r => ∀ rd ∈ s.readers[r]?, rd.pc ≠ .idle
  | .loadCommitFlag _ | .loadAbsOffset _ | .loadSizeAndType _ => False
  | _ => True

/-- A reader is joined at every reservation, polls find no stale header, drains
are exact, and additions to `read_offset` meet their assertion. -/
def ClosesCleanly (s : State) : Action → Prop
  | .reserve _ _ => 0 < s.activeReaders
  | .poll r => ∀ rd ∈ s.readers[r]?, s.PollsSettled Q rd
  | .releaseStep r => ∀ rd ∈ s.readers[r]?, s.AdvancesTo rd
  | .drain r => ∀ rd ∈ s.readers[r]?, ∀ e ∈ rd.leaveOffset, s.DrainsExactly Q rd e
  | _ => True

instance (s : State) (a : Action) : Decidable (ClosingRun Q s a) := by
  apply Action.casesOn (motive := fun a => Decidable (ClosingRun Q s a)) a <;> intros <;>
    dsimp only [ClosingRun] <;> infer_instance

instance (s : State) (a : Action) : Decidable (ClosesCleanly Q s a) := by
  apply Action.casesOn (motive := fun a => Decidable (ClosesCleanly Q s a)) a <;> intros <;>
    dsimp only [ClosesCleanly] <;> infer_instance

/-- What a leave at `e` of a reader whose close began at `a` owes to the rest. -/
structure SettlesDebts (s : State) : Prop where
  drained : ∀ rd ∈ s.readers, ∀ a before e, rd.closeStart = some (a, before) →
    rd.leaveOffset = some e → rd.pc = .closed →
      rd.decremented = before ++ s.offsetsIn a e ∧ (s.offsetsIn a e).Nodup
  draining : ∀ rd ∈ s.readers, ∀ a before e, rd.closeStart = some (a, before) →
    rd.leaveOffset = some e → rd.decremented <+: before ++ s.offsetsIn a e
  received : ∀ rd ∈ s.readers, rd.leaveOffset = none →
    rd.received = s.payloadsIn Q rd.joinOffset rd.cutoff
  served : ∀ rd ∈ s.readers, rd.pc = .idle → s.CommittedAt rd.absReadOffset →
    pollOutcome Q s.mem rd.absReadOffset ≠ .nullopt
  caught_up : (∀ rd ∈ s.readers, (rd.pc = .idle ∧ rd.absReadOffset = s.writeOffset) ∨
    rd.pc = .closed) → s.readOffset = s.writeOffset

section

variable {Q} {s : State} {rd : Reader} {b : Block}

theorem ClosesCleanly.sound {a : Action} (hrun : ClosingRun Q s a) (hclean : ClosesCleanly Q s a) :
    Sound Q s a := by
  cases a with
  | join => exact hrun
  | reserve size data => exact ⟨Nat.le_of_eq hrun.1, hclean, hrun.2⟩
  | poll r => exact hclean
  | callRelease r =>
    intro rd hrd hpc
    exact absurd hpc (hrun rd hrd)
  | releaseStep r => exact hclean
  | drain r => exact hclean
  | loadCommitFlag => exact hrun.elim
  | loadAbsOffset => exact hrun.elim
  | loadSizeAndType => exact hrun.elim
  | loadReadOffset => trivial
  | storeHeader => trivial
  | finishSkip => trivial
  | writeToBuffer => trivial
  | abortBuffer => trivial
  | leave => trivial

theorem ClosingRun.pollsFirst {a : Action} (hrun : ClosingRun Q s a) : PollsFirst s a := by
  cases a with
  | reserve => exact hrun.1
  | callRelease => exact hrun
  | loadSizeAndType => exact hrun.elim
  | _ => trivial

theorem invariant_of_closesCleanly (hreach : Reach (step Q)
    (fun s a => ClosingRun Q s a ∧ ClosesCleanly Q s a) State.init s) :
    Inv Q s ∧ Delivered Q s := by
  refine hreach.invariant (P := fun s => Inv Q s ∧ Delivered Q s) ⟨.init, .init⟩ ?_
  rintro s a t ⟨h, hi⟩ ⟨hrun, hclean⟩ hstep
  have hsound := hclean.sound hrun
  exact ⟨h.step hsound hstep, hi.step h hsound hrun.pollsFirst (Taken.of_step hstep)⟩

theorem settlesDebts (hreach : Reach (step Q)
    (fun s a => ClosingRun Q s a ∧ ClosesCleanly Q s a) State.init s) : SettlesDebts Q s := by
  obtain ⟨h, hi⟩ := invariant_of_closesCleanly hreach
  have hsplit : ∀ rd ∈ s.readers, ∀ a before e, rd.closeStart = some (a, before) →
      rd.leaveOffset = some e → a ≤ rd.absReadOffset ∧ rd.absReadOffset ≤ e ∧
        rd.decremented = before ++ s.offsetsIn a rd.absReadOffset := by
    intro rd hrd a before e hclose hleave
    have hr := h.reader rd hrd
    obtain ⟨hja, hap, hbefore⟩ := hr.close a before hclose
    refine ⟨hap, (hr.limit e hleave).1, ?_⟩
    rw [hr.decremented, hbefore, State.offsetsIn, h.tiles.slice_adjacent hja hap, List.map_append]
    rfl
  refine
    { drained := ?_, draining := ?_, received := hi.received, caught_up := ?_,
      served := fun rd hrd hpc => h.pollOutcome_ne_nullopt hrd hpc }
  · intro rd hrd a before e hclose hleave hclosed
    obtain ⟨-, -, hdec⟩ := hsplit rd hrd a before e hclose hleave
    have hend := (h.reader rd hrd).closed hclosed
    rw [hleave, Option.some.injEq] at hend
    rw [← hend] at hdec
    exact ⟨hdec, h.tiles.nodup.sublist (List.filter_sublist.map _)⟩
  · intro rd hrd a before e hclose hleave
    obtain ⟨hap, hpe, hdec⟩ := hsplit rd hrd a before e hclose hleave
    rw [hdec, List.prefix_append_right_inj]
    exact (h.tiles.slice_prefix hpe).map _
  · intro hquiet
    apply h.readOffset_eq
    · intro rd hrd
      rcases hquiet rd hrd with ⟨hpc, -⟩ | hpc
      · exact Reader.not_isClearing_of_pc hpc (by simp)
      · exact Reader.not_isClearing_of_pc hpc (by simp)
    · intro rd hrd b hb
      have hlt := h.offset_lt hb
      rw [Bool.eq_false_iff]
      intro hp
      obtain ⟨hpos, hlimit⟩ := Reader.pending_iff.mp hp
      rcases hquiet rd hrd with ⟨-, hend⟩ | hpc
      · omega
      · have hend := (h.reader rd hrd).closed hpc
        have := hlimit _ hend
        omega

end

/-- Of two readers one closes over a committed message and the other reads it. -/
theorem settlesDebts_two_readers :
    ∃ s, SettlesDebts .smallest s ∧ s.readOffset = 46 ∧
      s.readers.map Reader.decremented = [[0], [0]] := by
  let b : Block := ⟨0, 46, 28, 2, List.replicate 28 7⟩
  let labels : List Action :=
    [.join, .join, .reserve 28 b.data, .loadReadOffset b, .storeHeader b, .storeHeader b,
      .storeHeader b, .storeHeader b, .writeToBuffer b, .leave 1, .drain 1, .releaseStep 1,
      .drain 1, .poll 0, .callRelease 0, .releaseStep 0, .releaseStep 0, .releaseStep 0,
      .releaseStep 0, .releaseStep 0, .releaseStep 0]
  have hexec : (exec (step .smallest)
      (fun s a => ClosingRun .smallest s a ∧ ClosesCleanly .smallest s a) State.init labels).any
      (fun s => decide (s.readOffset = 46 ∧
        s.readers.map Reader.decremented = [[0], [0]])) = true := by
    decide +kernel
  obtain ⟨s, hrun, hs⟩ := exists_run_of_exec hexec
  exact ⟨s, settlesDebts ⟨labels, hrun⟩, of_decide_eq_true hs⟩

/-- A reader that closes while the one block it owes is claimed and not yet
committed stops its drain at once and never decrements it. -/
theorem close_before_commit :
    ∃ s, Reach (step .smallest) (ClosingRun .smallest) State.init s ∧
      ¬ SettlesDebts .smallest s := by
  let labels : List Action := [.join, .reserve 28 (List.replicate 28 7), .leave 0, .drain 0]
  have hexec : (exec (step .smallest) (ClosingRun .smallest) State.init labels).any
      (fun s => decide (∃ rd ∈ s.readers, rd.closeStart = some (0, []) ∧
        rd.leaveOffset = some 46 ∧ rd.pc = .closed ∧ rd.decremented = [] ∧
          s.offsetsIn 0 46 = [0])) = true := by
    decide +kernel
  obtain ⟨s, hrun, hs⟩ := exists_run_of_exec hexec
  obtain ⟨rd, hrd, hclose, hleave, hpc, hdec, howed⟩ := of_decide_eq_true hs
  refine ⟨s, ⟨labels, hrun⟩, ?_⟩
  intro hsettles
  have hdrained := (hsettles.drained rd hrd 0 [] 46 hclose hleave hpc).1
  rw [hdec, howed] at hdrained
  cases hdrained

end MockExchange
