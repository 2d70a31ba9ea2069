import MockExchange.Fifo
import MockExchange.JoinOrder
import MockExchange.Roster

/-!
# Complete delivery

With one payload size every reader ends up with the same payloads, whatever the
order of commits, polls and releases: those of all messages reserved after it
joined.
-/

namespace MockExchange

open ByteMemory Tiling MessageHeader Transition ListUpdate

variable (Q : RingSize) (size : Nat)

/-- One payload size; a reader joins before the first claim and others join at
any time, nobody closes and nothing is aborted. -/
def UniformRun (s : State) (a : Action) : Prop :=
  PollingRun s a ∧ match a with
    | .join => s.activeReaders < 255
    | .reserve n data => n = size ∧ data.length = n ∧ s.MayReserve Q n data
    | .abortBuffer _ => False
    | _ => True

instance (s : State) (a : Action) : Decidable (UniformRun Q size s a) := by
  apply Action.casesOn (motive := fun a => Decidable (UniformRun Q size s a)) a <;> intros <;>
    dsimp only [UniformRun] <;> infer_instance

/-- The payloads of the messages reserved at or behind `c`, in order. -/
def State.messagesFrom (s : State) (c : Nat) : List (List UInt8) :=
  (s.log.filter fun b => decide (c ≤ b.offset) && !b.isPadding Q).map Block.data

/-- The reader holds no wrapper and its next poll returns `nullopt`. -/
def State.PolledDry (s : State) (rd : Reader) : Prop :=
  rd.pc = .idle ∧ pollOutcome Q s.mem rd.absReadOffset = .nullopt

instance (s : State) (rd : Reader) : Decidable (s.PolledDry Q rd) := by
  unfold State.PolledDry; infer_instance

/-- The operations that shape the log: joins and reservations. -/
def Op.isReservationOrJoin : Op → Bool
  | .join | .reserve _ _ => true
  | _ => false

/-- What an operation does to the roster. -/
def Roster.updateOp (R : Roster) : Op → Roster
  | .join => R.join
  | .reserve size data => R.reserve Q size data
  | _ => R

section

variable {Q size} {s t : State} {rd : Reader}

theorem Roster.foldl_filter (R : Roster) (ops : List Op) :
    (ops.filter Op.isReservationOrJoin).foldl (Roster.updateOp Q) R =
      ops.foldl (Roster.updateOp Q) R := by
  induction ops generalizing R with
  | nil => rfl
  | cons op ops ih =>
    cases op with
    | join => exact ih _
    | reserve size data => exact ih _
    | _ => exact ih _

/-- One operation, as the roster sees it. -/
theorem roster_opStep (hq : s.Quiet) {op : Op} (hop : opStep Q s op = some t) :
    t.roster = s.roster.updateOp Q op := by
  have hfree : Unguarded fun _ a => a.keepsRoster = true :=
    ⟨⟨fun _ _ => rfl, fun _ _ => rfl, fun _ _ => rfl⟩, fun _ _ _ _ _ _ => rfl⟩
  have hkept : OpOk Q (fun _ a => a.keepsRoster = true) s op → t.roster = s.roster := by
    intro hok
    refine (reach_opStep hfree hq hok hop).1.invariant (P := fun u => u.roster = s.roster) rfl ?_
    intro u a v hu hkeeps hstep
    exact ((Taken.of_step hstep).change.roster_eq hkeeps).trans hu
  cases op with
  | join =>
    cases hop
    exact roster_join
  | reserve n data =>
    obtain ⟨-, rfl⟩ := eq_of_ite_some hop
    exact roster_reserve n data
  | finishClaim => exact hkept trivial
  | writeToBuffer => exact hkept rfl
  | abortBuffer => exact hkept rfl
  | pollBuffer r fuel => exact hkept (.of_forall (fun _ _ => rfl) (fun _ _ => rfl))
  | releaseBuffer r => exact hkept (fun _ _ _ _ _ _ => rfl)

/-- The roster of a run is what its joins and reservations make of it. -/
theorem roster_run {ok : State → Action → Prop} (hfree : Unguarded ok) {ops : List Op}
    (hrun : Run (opStep Q) (OpOk Q ok) State.init ops s) :
    s.roster = (ops.filter Op.isReservationOrJoin).foldl (Roster.updateOp Q) Roster.init := by
  rw [Roster.foldl_filter]
  refine hrun.view_eq (P := State.Quiet) (by simp [State.Quiet, State.init]) ?_
  intro t op u hq hok hop
  exact ⟨(reach_opStep hfree hq hok hop).2, roster_opStep hq hop⟩

/-! ### What is delivered -/

structure UniformInv (Q : RingSize) (size : Nat) (s : State) : Prop extends JoinInv Q size s where
  delivered : Delivered Q s

theorem UniformRun.joinRun {a : Action} (hrun : UniformRun Q size s a) :
    JoinRun Q size s a ∧ ReaderPresent s a := by
  obtain ⟨hpolling, hrun⟩ := hrun
  cases a with
  | reserve => exact ⟨⟨hpolling, hrun.1, hrun.2.1.le, hrun.2.2.2.2⟩, hrun.2.2.2.1⟩
  | _ => exact ⟨⟨hpolling, hrun⟩, trivial⟩

theorem UniformInv.init : UniformInv Q size State.init := ⟨.init, .init⟩

theorem UniformInv.channelRun (hi : UniformInv Q size s) {a : Action}
    (hrun : UniformRun Q size s a) : ChannelRun Q s a := by
  obtain ⟨hjoin, hpresent⟩ := hrun.joinRun
  refine ⟨hjoin.sound hpresent hi.inv hi.uniform hi.staying hi.noAborts, hrun.1.pollsFirst ?_⟩
  rintro n data rfl
  exact hrun.2.2.1

theorem UniformInv.step (hi : UniformInv Q size s) {a : Action} (hrun : UniformRun Q size s a)
    (hstep : step Q s a = some t) : UniformInv Q size t := by
  obtain ⟨hjoin, hpresent⟩ := hrun.joinRun
  obtain ⟨hsound, hfirst⟩ := hi.channelRun hrun
  exact ⟨hi.toJoinInv.step hjoin hpresent hstep,
    hi.delivered.step hi.inv hsound hfirst (Taken.of_step hstep)⟩

theorem unguarded_uniform : Unguarded (UniformRun Q size) where
  loadReadOffset := fun _ _ => ⟨trivial, trivial⟩
  storeHeader := fun _ _ => ⟨trivial, trivial⟩
  finishSkip := fun _ _ => ⟨trivial, trivial⟩
  callRelease := fun _ _ _ _ hrd hpc => ⟨.callRelease hrd hpc, trivial⟩

theorem UniformInv.of_reach (hreach : Reach (opStep Q) (OpOk Q (UniformRun Q size)) State.init s) :
    UniformInv Q size s :=
  (reach_of_operations unguarded_uniform hreach).1.invariant .init
    (fun _ _ _ hi hok hstep => hi.step hok hstep)

theorem Inv.messagesIn_end (h : Inv Q s) (c : Nat) :
    s.messagesIn Q c s.writeOffset = s.messagesFrom Q c := by
  rw [State.messagesIn, State.messagesFrom, slice, List.filter_filter]
  congr 1
  apply List.filter_congr
  intro b hb
  have := h.offset_lt hb
  simp [this, Bool.and_comm]

/-- With everything committed, a reader that finds nothing is at the end. -/
theorem UniformInv.at_end (hi : UniformInv Q size s) (hcommitted : s.AllCommitted)
    (hrd : rd ∈ s.readers) (hdry : s.PolledDry Q rd) : rd.absReadOffset = s.writeOffset := by
  rcases (hi.inv.reader rd hrd).boundary with hend | ⟨b, hb, hstart⟩
  · exact hend
  · refine absurd hdry.2 (hi.inv.pollOutcome_ne_nullopt hrd hdry.1 ⟨b, hb, hstart, ?_⟩)
    rw [← hstart]
    exact hcommitted b hb

/-- A reader that has polled everything received every message since its join. -/
theorem UniformInv.received_all (hi : UniformInv Q size s) (hcommitted : s.AllCommitted)
    (hrd : rd ∈ s.readers) (hdry : s.PolledDry Q rd) :
    rd.received = s.messagesFrom Q rd.joinOffset := by
  have hcut : rd.cutoff = rd.absReadOffset := by simp [Reader.cutoff, hdry.1]
  rw [hi.delivered.received rd hrd (hi.staying rd hrd), hi.inv.payloadsIn_eq hi.noAborts hrd,
    hcut, hi.at_end hcommitted hrd hdry, hi.inv.messagesIn_end]

/-- **Complete delivery.** What a reader ends up with is settled by the joins and
the reservations. -/
theorem completeDelivery {ops : List Op}
    (hrun : Run (opStep Q) (OpOk Q (UniformRun Q size)) State.init ops s) :
    (∀ rd ∈ s.readers, s.AllCommitted → s.PolledDry Q rd →
      rd.received = s.messagesFrom Q rd.joinOffset) ∧
    ∀ (ops' : List Op) (t : State), Run (opStep Q) (OpOk Q (UniformRun Q size)) State.init ops' t →
      ops'.filter Op.isReservationOrJoin = ops.filter Op.isReservationOrJoin →
      s.AllCommitted → t.AllCommitted →
      ∀ (r : Nat) (rd rd' : Reader), s.readers[r]? = some rd → t.readers[r]? = some rd' →
        s.PolledDry Q rd → t.PolledDry Q rd' → rd'.received = rd.received := by
  have hi := UniformInv.of_reach ⟨ops, hrun⟩
  refine ⟨fun rd hrd hcommitted hdry => hi.received_all hcommitted hrd hdry, ?_⟩
  intro ops' t hrun' hsame hcommitted hcommitted' r rd rd' hrd hrd' hdry hdry'
  have hi' := UniformInv.of_reach ⟨ops', hrun'⟩
  have hroster : t.roster = s.roster := by
    rw [roster_run unguarded_uniform hrun', hsame, roster_run unguarded_uniform hrun]
  have hlog : t.log = s.log := congrArg Roster.log hroster
  have hmembers : t.readers.map Reader.membership = s.readers.map Reader.membership :=
    congrArg Roster.members hroster
  have hjoin : rd'.joinOffset = rd.joinOffset := by
    have hnth : (t.readers.map Reader.membership)[r]? = (s.readers.map Reader.membership)[r]? := by
      rw [hmembers]
    rw [List.getElem?_map, List.getElem?_map, hrd, hrd'] at hnth
    exact congrArg Membership.joinOffset (Option.some.inj hnth)
  rw [hi'.received_all hcommitted' (List.mem_of_getElem? hrd') hdry',
    hi.received_all hcommitted (List.mem_of_getElem? hrd) hdry, State.messagesFrom,
    State.messagesFrom, hlog, hjoin]

end

/-- Two claims, committed in either order. -/
theorem completeDelivery_either_order :
    ∃ (s t : State) (rd rd' : Reader), s.readers[0]? = some rd ∧ t.readers[0]? = some rd' ∧
      rd.received = s.messagesFrom .smallest 0 ∧ rd'.received = rd.received ∧
      s.messagesFrom .smallest 0 = [[7], [8]] := by
  let b : Block := ⟨0, 19, 1, 1, [7]⟩
  let c : Block := ⟨19, 19, 1, 1, [8]⟩
  let claims : List Op := [.join, .reserve 1 [7], .reserve 1 [8], .finishClaim b, .finishClaim c]
  let reads : List Op := [.pollBuffer 0 1, .releaseBuffer 0, .pollBuffer 0 1, .releaseBuffer 0]
  let ops : List Op := claims ++ [.writeToBuffer b, .writeToBuffer c] ++ reads
  let ops' : List Op := claims ++ [.writeToBuffer c, .writeToBuffer b] ++ reads
  have hdone : ∀ ops, (exec (opStep .smallest) (OpOk .smallest (UniformRun .smallest 1))
      State.init ops).any (fun s => decide (s.AllCommitted ∧
        s.messagesFrom .smallest 0 = [[7], [8]] ∧ ∃ rd ∈ s.readers[0]?, rd.joinOffset = 0 ∧
          s.PolledDry .smallest rd)) = true →
      ∃ s rd, Run (opStep .smallest) (OpOk .smallest (UniformRun .smallest 1)) State.init ops s ∧
        s.AllCommitted ∧ s.messagesFrom .smallest 0 = [[7], [8]] ∧ s.readers[0]? = some rd ∧
        rd.joinOffset = 0 ∧ s.PolledDry .smallest rd := by
    intro ops hexec
    obtain ⟨s, hrun, hs⟩ := exists_run_of_exec hexec
    obtain ⟨hcommitted, hmessages, rd, hrd, hjoin, hdry⟩ := of_decide_eq_true hs
    exact ⟨s, rd, hrun, hcommitted, hmessages, hrd, hjoin, hdry⟩
  obtain ⟨s, rd, hrun, hcommitted, hmessages, hrd, hjoin, hdry⟩ := hdone ops (by decide +kernel)
  obtain ⟨t, rd', hrun', hcommitted', -, hrd', -, hdry'⟩ := hdone ops' (by decide +kernel)
  obtain ⟨hall, htwo⟩ := completeDelivery hrun
  refine ⟨s, t, rd, rd', hrd, hrd', ?_, ?_, hmessages⟩
  · rw [← hjoin]
    exact hall rd (List.mem_of_getElem? hrd) hcommitted hdry
  · exact htwo ops' t hrun' rfl hcommitted hcommitted' 0 rd rd' hrd hrd' hdry hdry'

end MockExchange
