import MockExchange.Operations

/-!
# First in, first out

With payloads of any sizes a header can come to lie on bytes that an earlier
block left behind: `release_buffer` does not clear `abs_offset`, and before a
reservation is admitted its place still belongs to blocks a lap behind. A poll
that takes such bytes for a header hands out what nobody committed. As long as
none does, every reader receives a prefix of what was reserved.
-/

namespace MockExchange

open ByteMemory Tiling MessageHeader Transition ListUpdate

variable (Q : RingSize)

/-- All readers join before the first claim and none closes, no claim is
aborted, and payloads fill what was claimed for them. -/
def FifoRun (s : State) (a : Action) : Prop :=
  PollingRun s a ∧ match a with
    | .join => s.log = [] ∧ s.activeReaders < 255
    | .reserve size data => data.length = size ∧ size ≤ Q.bytes - 2 * sizeofMessageHeader ∧
      s.MayReserve Q size data
    | .abortBuffer _ => False
    | _ => True

/-- Where the block at a polling reader's offset is not settled, the bytes there
do not pass for its header. -/
def NoStaleHeader (s : State) : Action → Prop
  | .poll r => ∀ rd ∈ s.readers[r]?, ¬ s.SettledAt rd.absReadOffset →
    commitFlag s.mem (rd.absReadOffset % Q.bytes) ≠ CommitFlag.aborted.toByte ∧
    (commitFlag s.mem (rd.absReadOffset % Q.bytes) = CommitFlag.readyForConsumer.toByte →
      absOffset s.mem (rd.absReadOffset % Q.bytes) ≠ rd.absReadOffset)
  | _ => True

instance (s : State) (a : Action) : Decidable (FifoRun Q s a) := by
  apply Action.casesOn (motive := fun a => Decidable (FifoRun Q s a)) a <;> intros <;>
    dsimp only [FifoRun] <;> infer_instance

instance (s : State) (a : Action) : Decidable (NoStaleHeader Q s a) := by
  apply Action.casesOn (motive := fun a => Decidable (NoStaleHeader Q s a)) a <;> intros <;>
    dsimp only [NoStaleHeader] <;> infer_instance

/-- The payloads of the messages reserved in `[c, d)`, in that order. -/
def State.messagesIn (s : State) (c d : Nat) : List (List UInt8) :=
  ((slice Block.offset s.log c d).filter fun b => !b.isPadding Q).map Block.data

/-- The payloads of all messages in the order of their reserved offsets. -/
def State.messages (s : State) : List (List UInt8) :=
  (s.log.filter fun b => !b.isPadding Q).map Block.data

/-- All readers joined before the first reservation. -/
def State.JoinedFirst (s : State) : Prop := ∀ rd ∈ s.readers, rd.joinOffset = 0

section

variable {Q} {s t : State} {rd : Reader}

theorem State.JoinedFirst.step (hi : s.JoinedFirst) (h : Inv Q s) {a : Action}
    (hchange : Change Q s a t) (hjoin : a = .join → s.log = []) : t.JoinedFirst := by
  cases hchange with
  | join =>
    have hempty : s.writeOffset = 0 := by
      have htiles := h.tiles
      rw [hjoin rfl] at htiles
      exact htiles.symm
    intro rd hrd
    rw [join_readers, List.mem_append, List.mem_singleton] at hrd
    rcases hrd with hold | rfl
    · exact hi rd hold
    · exact hempty
  | reserve => exact hi
  | write => exact hi
  | move hrd hsame =>
    exact forall_mem_set hi (hsame.joinOffset.trans (hi _ (List.mem_of_getElem? hrd)))
  | @fetchSub r hdr rd hrd =>
    have hfirst := hi rd (List.mem_of_getElem? hrd)
    exact forall_mem_set hi hfirst
  | @clearStep r hdr total rd step hrd =>
    obtain ⟨pc, hreaders⟩ := clearStep_readers s r rd step hdr total
    have hfirst := hi rd (List.mem_of_getElem? hrd)
    intro x hx
    rw [hreaders] at hx
    rcases List.mem_or_eq_of_mem_set hx with hx | rfl
    · exact hi x hx
    · exact hfirst
  | @leave r rd hrd =>
    have hfirst := hi rd (List.mem_of_getElem? hrd)
    exact forall_mem_set hi hfirst

/-- Without aborts everything a reader was served from was committed. -/
theorem Inv.payloadsIn_eq (h : Inv Q s) (hno : s.NoAborts) (hrd : rd ∈ s.readers) :
    s.payloadsIn Q rd.joinOffset rd.cutoff = s.messagesIn Q rd.joinOffset rd.cutoff := by
  rw [State.payloadsIn, State.messagesIn]
  congr 1
  apply List.filter_congr
  intro b hb
  obtain ⟨hb, hjoin, hlt⟩ := mem_slice.mp hb
  rcases Stage.settled_iff.mp (h.settled_of_cutoff hrd hb hjoin hlt) with hst | hst
  · simp [State.delivers, hst]
  · exact absurd hst (hno b hb)

theorem Inv.messagesIn_all (h : Inv Q s) : s.messagesIn Q 0 s.writeOffset = s.messages Q := by
  rw [State.messagesIn, h.tiles.slice_all]
  rfl

theorem Inv.messagesIn_prefix (h : Inv Q s) {c d e : Nat} (hde : d ≤ e) :
    s.messagesIn Q c d <+: s.messagesIn Q c e :=
  ((h.tiles.slice_prefix hde).filter _).map _

theorem NoStaleHeader.pollsSettled {r : Nat} (hclean : NoStaleHeader Q s (.poll r))
    (hrd : rd ∈ s.readers[r]?) : s.PollsSettled Q rd := by
  intro hout
  by_contra hnot
  obtain ⟨haborted, hready⟩ := hclean rd hrd hnot
  apply hout
  simp only [pollOutcome]
  split
  · rename_i hflag
    rw [if_pos (hready hflag)]
  · rfl

theorem FifoRun.sound {a : Action} (hrun : FifoRun Q s a) (hclean : NoStaleHeader Q s a)
    (h : Inv Q s) (hstay : s.Staying) : Sound Q s a := by
  obtain ⟨hpolling, hrun⟩ := hrun
  refine hpolling.sound h hstay ?_ ?_ ?_
  · rintro rfl
    exact hrun.2
  · rintro size data rfl
    exact hrun.2.2
  · rintro r rfl rd hrd
    exact hclean.pollsSettled hrd

/-- What holds between any two atomic steps of such a run. -/
structure FifoInv (Q : RingSize) (s : State) : Prop where
  inv : Inv Q s
  staying : s.Staying
  noAborts : s.NoAborts
  joinedFirst : s.JoinedFirst
  delivered : Delivered Q s

theorem FifoInv.init : FifoInv Q State.init := by
  refine ⟨.init, ?_, ?_, ?_, .init⟩ <;>
    simp [State.Staying, State.NoAborts, State.JoinedFirst, State.init]

theorem FifoInv.step (hi : FifoInv Q s) {a : Action} (hrun : FifoRun Q s a)
    (hclean : NoStaleHeader Q s a) (hstep : step Q s a = some t) : FifoInv Q t := by
  obtain ⟨h, hstay, hno, hfirst, hdel⟩ := hi
  have htaken := Taken.of_step hstep
  have hsound := hrun.sound hclean h hstay
  obtain ⟨hpolling, hrun⟩ := hrun
  refine ⟨h.step hsound hstep, hstay.step htaken.change hpolling.staying, hno.step htaken ?_,
    hfirst.step h htaken.change ?_, hdel.step h hsound (hpolling.pollsFirst ?_) htaken⟩
  · rintro b rfl
    exact hrun
  · rintro rfl
    exact hrun.1
  · rintro size data rfl
    exact hrun.1

theorem unguarded_fifo : Unguarded fun s a => FifoRun Q s a ∧ NoStaleHeader Q s a where
  loadReadOffset := fun _ _ => ⟨⟨trivial, trivial⟩, trivial⟩
  storeHeader := fun _ _ => ⟨⟨trivial, trivial⟩, trivial⟩
  finishSkip := fun _ _ => ⟨⟨trivial, trivial⟩, trivial⟩
  callRelease := fun _ _ _ _ hrd hpc => ⟨⟨.callRelease hrd hpc, trivial⟩, trivial⟩

theorem FifoInv.receives_in_order (hi : FifoInv Q s) :
    ∀ rd ∈ s.readers, rd.received <+: s.messages Q := by
  have h := hi.inv
  intro rd hrd
  rw [hi.delivered.received rd hrd (hi.staying rd hrd), h.payloadsIn_eq hi.noAborts hrd,
    hi.joinedFirst rd hrd, ← h.messagesIn_all]
  exact h.messagesIn_prefix (h.cutoff_le hrd)

/-- First in, first out, exactly once. -/
theorem received_prefix (hreach : Reach (opStep Q)
    (OpOk Q fun s a => FifoRun Q s a ∧ NoStaleHeader Q s a) State.init s) :
    ∀ rd ∈ s.readers, rd.received <+: s.messages Q := by
  obtain ⟨hreach, -⟩ := reach_of_operations unguarded_fifo hreach
  have hi := hreach.invariant FifoInv.init
    (fun s a t hi hok hstep => FifoInv.step hi hok.1 hok.2 hstep)
  exact hi.receives_in_order

/-! ### Claims of one size -/

/-- With one payload size every header lies where headers always lie, and no
poll finds a stale one. -/
theorem FifoInv.noStaleHeader (hi : FifoInv Q s) {size : Nat} (hu : Uniform Q size s)
    (a : Action) : NoStaleHeader Q s a := by
  cases a with
  | poll r =>
    intro rd hrd hnot
    have hmem := List.mem_of_getElem? hrd
    constructor
    · intro haborted
      obtain ⟨b, hb, -, hst⟩ := hu.aborted_of_flag hi.inv hmem haborted
      exact hi.noAborts b hb hst
    · intro hready habs
      have hflag : commitFlag s.mem (rd.absReadOffset % Q.bytes) ≠ 0 := by
        rw [hready]
        decide
      obtain ⟨b, hb, hoff, hst, -⟩ := hu.settledAt hi.inv hmem hflag habs
      exact hnot ⟨b, hb, hoff, hoff ▸ hst⟩
  | _ => trivial

/-- All claims ask for `size` bytes. -/
def OneSize (size : Nat) : Action → Prop
  | .reserve n _ => n = size
  | _ => True

theorem unguarded_oneSize (size : Nat) :
    Unguarded fun s a => FifoRun Q s a ∧ OneSize size a where
  loadReadOffset := fun _ _ => ⟨⟨trivial, trivial⟩, trivial⟩
  storeHeader := fun _ _ => ⟨⟨trivial, trivial⟩, trivial⟩
  finishSkip := fun _ _ => ⟨⟨trivial, trivial⟩, trivial⟩
  callRelease := fun _ _ _ _ hrd hpc => ⟨⟨.callRelease hrd hpc, trivial⟩, trivial⟩

/-- Claims of one size need no condition on the bytes in the ring. -/
theorem received_prefix_of_oneSize {size : Nat} (hreach : Reach (opStep Q)
    (OpOk Q fun s a => FifoRun Q s a ∧ OneSize size a) State.init s) :
    ∀ rd ∈ s.readers, rd.received <+: s.messages Q := by
  obtain ⟨hreach, -⟩ := reach_of_operations (unguarded_oneSize size) hreach
  have hinit : FifoInv Q State.init ∧ Uniform Q size State.init :=
    ⟨.init, .init (Nat.le_trans (by decide) Q.ge_64)⟩
  have hall := hreach.invariant (P := fun s => FifoInv Q s ∧ Uniform Q size s) hinit (by
    rintro s a t ⟨hi, hu⟩ ⟨hrun, hone⟩ hstep
    have hclean := hi.noStaleHeader hu a
    have hi' := hi.step hrun hclean hstep
    have hsound := hrun.sound hclean hi.inv hi.staying
    refine ⟨hi', hu.step hi.inv hi'.inv hsound ?_ (Taken.of_step hstep)⟩
    rintro n data rfl
    exact hone)
  exact hall.1.receives_in_order

end

/-- Two messages in a ring of 64 bytes; the reader is handed the first. -/
theorem received_prefix_two_messages :
    ∃ s : State, (∀ rd ∈ s.readers, rd.received <+: s.messages .smallest) ∧
      s.messages .smallest = [[7], [8]] ∧ s.readers.map Reader.received = [[[7]]] := by
  let b : Block := ⟨0, 19, 1, 1, [7]⟩
  let ops : List Op :=
    [.join, .reserve 1 [7], .reserve 1 [8], .finishClaim b, .writeToBuffer b, .pollBuffer 0 1,
      .releaseBuffer 0, .pollBuffer 0 1]
  have hexec : (exec (opStep .smallest) (OpOk .smallest fun s a =>
      FifoRun .smallest s a ∧ NoStaleHeader .smallest s a) State.init ops).any
      (fun s => decide (s.messages .smallest = [[7], [8]] ∧
        s.readers.map Reader.received = [[[7]]])) = true := by
    decide +kernel
  obtain ⟨s, hrun, hs⟩ := exists_run_of_exec hexec
  exact ⟨s, received_prefix ⟨ops, hrun⟩, of_decide_eq_true hs⟩

/-- In a ring of 512 bytes: a message of 239 bytes, a skip message at 257 and a
message at 512 are read and released, and one byte is claimed at 752. Its flag
byte and its payload are the first two bytes of the skip message's `abs_offset`,
which nobody cleared, so the reader is handed the claim before its writer wrote
anything. -/
theorem stale_header_delivered :
    ∃ s, Reach (opStep .of512) (OpOk .of512 (FifoRun .of512)) State.init s ∧
      ¬ ∀ rd ∈ s.readers, rd.received <+: s.messages .of512 := by
  let b : Block := ⟨0, 257, 239, 1, List.replicate 239 9⟩
  let pad : Block := ⟨257, 255, 222, 1, List.replicate 222 9⟩
  let c : Block := ⟨512, 240, 222, 1, List.replicate 222 9⟩
  let d : Block := ⟨752, 19, 1, 1, [7]⟩
  let ops : List Op :=
    [.join, .reserve 239 b.data, .finishClaim b, .writeToBuffer b, .pollBuffer 0 1,
      .releaseBuffer 0, .reserve 222 pad.data, .finishClaim pad, .reserve 222 c.data,
      .finishClaim c, .writeToBuffer c, .pollBuffer 0 2, .releaseBuffer 0, .reserve 1 [7],
      .finishClaim d, .pollBuffer 0 1]
  have hexec : (exec (opStep .of512) (OpOk .of512 (FifoRun .of512)) State.init ops).any
      (fun s => decide (s.messages .of512 = [b.data, c.data, [7]] ∧
        ∃ rd ∈ s.readers, rd.received = [b.data, c.data, [1]])) = true := by
    decide +kernel
  obtain ⟨s, hrun, hs⟩ := exists_run_of_exec hexec
  obtain ⟨hmessages, rd, hrd, hreceived⟩ := of_decide_eq_true hs
  refine ⟨s, ⟨ops, hrun⟩, ?_⟩
  intro hprefix
  have hpre := hprefix rd hrd
  rw [hmessages, hreceived] at hpre
  simp [List.cons_prefix_cons] at hpre

end MockExchange
