import MockExchange.CompleteDelivery
import MockExchange.Service

/-!
# What poll_buffer returns

`poll_buffer` calls itself behind every skip message and every aborted claim.
Called by a reader with nothing in its hands, it goes over those in front of it,
releasing each, and stops at the first block of another kind: it hands out a
committed message, and at an unsettled block or at the write offset it returns
`nullopt`. That is so where each of its looks at a header finds that of the block
at its reader's offset. The number of its calls is the number of blocks it goes
over plus one.
-/

namespace MockExchange

open ByteMemory Tiling MessageHeader Transition ListUpdate

variable (Q : RingSize)

/-- The blocks at or behind `p`, in order. -/
def State.unread (s : State) (p : Nat) : List Block := slice Block.offset s.log p s.writeOffset

/-- A poll goes over the block: it is settled and carries nothing for the reader. -/
def State.passesOver (s : State) (b : Block) : Bool :=
  (s.stage b.offset).settled && !s.delivers Q b

/-- The blocks a poll at `p` goes over. -/
def State.passedOver (s : State) (p : Nat) : List Block := (s.unread p).takeWhile (s.passesOver Q)

/-- The block a poll at `p` stops at, if it does not run to the write offset. -/
def State.stopsAt (s : State) (p : Nat) : Option Block :=
  ((s.unread p).dropWhile (s.passesOver Q)).head?

/-- The message a poll at `p` hands out. -/
def State.nextMessage (s : State) (p : Nat) : Option Block :=
  (s.stopsAt Q p).filter (s.delivers Q)

/-- Reader `rd` of `s` after a poll. -/
structure Polled (s : State) (rd rd' : Reader) : Prop where
  forward : rd.absReadOffset ≤ rd'.absReadOffset
  position : rd'.absReadOffset = ((s.stopsAt Q rd.absReadOffset).map Block.offset).getD s.writeOffset
  pc : rd'.pc = ((s.nextMessage Q rd.absReadOffset).map fun b => .holding (b.hdr Q)).getD .idle
  received : rd'.received =
    rd.received ++ (s.nextMessage Q rd.absReadOffset).toList.map Block.data
  decremented : rd'.decremented =
    rd.decremented ++ (s.passedOver Q rd.absReadOffset).map Block.offset
  between : s.passedOver Q rd.absReadOffset =
    slice Block.offset s.log rd.absReadOffset rd'.absReadOffset
  staying : rd'.leaveOffset = none
  joinOffset : rd'.joinOffset = rd.joinOffset

/-- `t` is `s` with reader `r` changed to `rd'`, as far as log and readers go. -/
structure State.MovesReader (s t : State) (r : Nat) (rd' : Reader) : Prop where
  log : t.log = s.log
  stage : t.stage = s.stage
  writeOffset : t.writeOffset = s.writeOffset
  readers : t.readers = s.readers.set r rd'

section

variable {Q} {s t u : State} {b : Block} {r fuel : Nat} {rd rd' rd'' : Reader}

/-! ### A whole release -/

theorem State.MovesReader.refl (hrd : s.readers[r]? = some rd) : s.MovesReader s r rd := by
  obtain ⟨hlt, hget⟩ := List.getElem?_eq_some_iff.mp hrd
  exact ⟨rfl, rfl, rfl, by rw [← hget, List.set_getElem_self]⟩

theorem State.MovesReader.trans (h : s.MovesReader t r rd') (h' : t.MovesReader u r rd'') :
    s.MovesReader u r rd'' :=
  ⟨h'.log.trans h.log, h'.stage.trans h.stage, h'.writeOffset.trans h.writeOffset,
    by rw [h'.readers, h.readers, List.set_set]⟩

theorem State.MovesReader.getElem? (h : s.MovesReader t r rd') (hrd : s.readers[r]? = some rd) :
    t.readers[r]? = some rd' := by
  rw [h.readers, List.getElem?_set_self (lt_of_getElem? hrd)]

theorem State.MovesReader.unread_eq (h : s.MovesReader t r rd') (p : Nat) :
    t.unread p = s.unread p := by
  rw [State.unread, State.unread, h.log, h.writeOffset]

theorem State.MovesReader.delivers_eq (h : s.MovesReader t r rd') :
    t.delivers Q = s.delivers Q := by
  unfold State.delivers
  rw [h.stage]

theorem State.MovesReader.passesOver_eq (h : s.MovesReader t r rd') :
    t.passesOver Q = s.passesOver Q := by
  unfold State.passesOver
  rw [h.delivers_eq, h.stage]

/-- `rd'` is reader `rd` after it released the block `b`. -/
structure Reader.MovedPast (rd rd' : Reader) (b : Block) : Prop where
  idle : rd'.pc = .idle
  staying : rd'.leaveOffset = none
  joinOffset : rd'.joinOffset = rd.joinOffset
  position : rd'.absReadOffset = b.finish
  received : rd'.received = rd.received
  decremented : rd'.decremented = rd.decremented ++ [b.offset]

/-- Behind the `fetch_sub` only the pc of the reader changes. -/
theorem releaseStep_moves (hrd : s.readers[r]? = some rd)
    (hpc : ∀ hdr, rd.pc ≠ .releaseCalled hdr) :
    ∃ pc, s.MovesReader (releaseStep Q s r) r { rd with pc := pc } ∧
      ∀ hdr, pc ≠ .releaseCalled hdr := by
  have hafter : ∀ hdr, rd.afterRelease ≠ .releaseCalled hdr := by
    intro hdr
    unfold Reader.afterRelease
    split <;> simp
  simp only [releaseStep, hrd]
  cases hcase : rd.pc with
  | releaseCalled hdr => exact absurd hcase (hpc hdr)
  | clearing step hdr total =>
    cases step with
    | advance => exact ⟨_, ⟨rfl, rfl, rfl, rfl⟩, hafter⟩
    | _ => exact ⟨_, ⟨rfl, rfl, rfl, rfl⟩, by simp⟩
  | _ => exact ⟨rd.pc, .refl hrd, hpc⟩

theorem releaseSteps_move (hrd : s.readers[r]? = some rd)
    (hpc : ∀ hdr, rd.pc ≠ .releaseCalled hdr) (n : Nat) :
    ∃ pc, s.MovesReader ((releaseStep Q · r)^[n] s) r { rd with pc := pc } ∧
      ∀ hdr, pc ≠ .releaseCalled hdr := by
  induction n with
  | zero => exact ⟨rd.pc, .refl hrd, hpc⟩
  | succ n ih =>
    obtain ⟨pc, hmoves, hne⟩ := ih
    obtain ⟨pc', hmoves', hne'⟩ := releaseStep_moves (Q := Q) (hmoves.getElem? hrd) hne
    rw [Function.iterate_succ_apply']
    exact ⟨pc', hmoves.trans hmoves', hne'⟩

theorem Inv.finishRelease_moves (h : Inv Q s) (hrd : s.readers[r]? = some rd) {hdr : Nat}
    (hpc : rd.pc = .releaseCalled hdr) (hstay : rd.leaveOffset = none)
    (howns : Owns Q s rd hdr b) :
    ∃ rd', s.MovesReader (finishRelease Q s r) r rd' ∧ rd.MovedPast rd' b := by
  have hlt := lt_of_getElem? hrd
  let passed := rd.passed Q b (decide (s.pendingCount b.offset ≤ 1))
  have hfirst : s.MovesReader (releaseStep Q s r) r passed := by
    have hstep : releaseStep Q s r = MockExchange.fetchSub Q s r rd hdr := by
      simp only [releaseStep, hrd, hpc]
    rw [hstep, h.fetchSub_eq hrd howns]
    exact ⟨rfl, rfl, rfl, rfl⟩
  have hne : ∀ hdr, passed.pc ≠ .releaseCalled hdr := by
    intro hdr
    simp only [passed, Reader.passed, Reader.afterRelease]
    split
    · simp
    · split <;> simp
  obtain ⟨pc, hmoves, -⟩ := releaseSteps_move (Q := Q) (hfirst.getElem? hrd) hne 5
  have hall : s.MovesReader (finishRelease Q s r) r { passed with pc := pc } := hfirst.trans hmoves
  obtain ⟨rd'', hreaders, -, hidle⟩ := finishRelease_readers (Q := Q) hrd
    ⟨hstay, Or.inr (by rw [hpc]; rfl), by rw [hpc]; exact Nat.le_refl 6⟩
  have hlast : rd'' = { passed with pc := pc } := by
    have hget := hall.getElem? hrd
    rw [hreaders, List.getElem?_set_self hlt] at hget
    exact Option.some.inj hget
  refine ⟨_, hall, ⟨?_, hstay, rfl, rfl, rfl, rfl⟩⟩
  rw [← hlast]
  exact hidle

/-! ### What is in front of a reader -/

theorem State.settled_of_passesOver (h : s.passesOver Q b = true) :
    (s.stage b.offset).settled = true ∧ s.delivers Q b = false := by
  simpa [State.passesOver] using h

theorem State.settled_of_delivers (h : s.delivers Q b = true) :
    (s.stage b.offset).settled = true := by
  simp only [State.delivers, Bool.and_eq_true, decide_eq_true_eq] at h
  rw [h.1]
  rfl

theorem State.unread_end : s.unread s.writeOffset = [] := slice_self _

theorem Inv.slice_cons (h : Inv Q s) (hb : b ∈ s.log) {q : Nat} (hle : b.finish ≤ q) :
    slice Block.offset s.log b.offset q = b :: slice Block.offset s.log b.finish q := by
  have hlen := (h.shape b hb).length_ge
  have hfirst : slice Block.offset s.log b.offset b.finish = [b] := by
    have hend := h.tiles.slice_end hb (Nat.le_refl b.offset)
    rwa [slice_self, List.nil_append] at hend
  rw [h.tiles.slice_adjacent (d := b.finish) (by simp only [Block.finish]; omega) hle, hfirst]
  rfl

theorem Inv.unread_cons (h : Inv Q s) (hb : b ∈ s.log) :
    s.unread b.offset = b :: s.unread b.finish :=
  h.slice_cons hb (h.finish_le hb)

/-- A settled block at an idle reader's offset is in the ring as its header says. -/
theorem Inv.blockMem_of_idle (h : Inv Q s) (hrd : rd ∈ s.readers) (hpc : rd.pc = .idle)
    (hb : b ∈ s.log) (hpos : rd.absReadOffset = b.offset)
    (hst : (s.stage b.offset).settled = true) :
    ∃ n, 0 < n ∧ BlockMem Q s.mem b (s.stage b.offset) n := by
  have hstay := (h.reader rd hrd).staying (Or.inl hpc)
  have hp : rd.pending b.offset = true := by
    rw [Reader.pending_iff, hstay]
    exact ⟨by omega, by simp⟩
  have hheader := h.header hrd hb hst hp
  exact ⟨_, hheader.pending_pos, h.block b hb hheader.live⟩

/-- A poll at a message of a committed claim finds it. -/
theorem Inv.pollOutcome_delivers (h : Inv Q s) (hrd : rd ∈ s.readers) (hpc : rd.pc = .idle)
    (hb : b ∈ s.log) (hpos : rd.absReadOffset = b.offset) (hdelivers : s.delivers Q b = true) :
    pollOutcome Q s.mem rd.absReadOffset = .wrapper := by
  simp only [State.delivers, Bool.and_eq_true, decide_eq_true_eq, Bool.not_eq_true'] at hdelivers
  obtain ⟨hst, hpad⟩ := hdelivers
  obtain ⟨n, hn, hmem⟩ := h.blockMem_of_idle hrd hpc hb hpos (by rw [hst]; rfl)
  rw [hst] at hmem
  rw [hpos, pollOutcome_of_blockMem hmem hn, hpad]
  rfl

/-- A poll at a block that carries nothing for the reader skips it. -/
theorem Inv.pollOutcome_passesOver (h : Inv Q s) (hrd : rd ∈ s.readers) (hpc : rd.pc = .idle)
    (hb : b ∈ s.log) (hpos : rd.absReadOffset = b.offset) (hover : s.passesOver Q b = true) :
    pollOutcome Q s.mem rd.absReadOffset = .skipPadding ∨
      pollOutcome Q s.mem rd.absReadOffset = .skipAborted := by
  simp only [State.passesOver, Bool.and_eq_true, Bool.not_eq_true'] at hover
  obtain ⟨hsettled, hnot⟩ := hover
  obtain ⟨n, hn, hmem⟩ := h.blockMem_of_idle hrd hpc hb hpos hsettled
  rw [hpos]
  rcases Stage.settled_iff.mp hsettled with hst | hst
  · left
    have hpad : b.isPadding Q = true := by
      by_contra hpad
      rw [State.delivers_of_committed hst (by simpa using hpad)] at hnot
      cases hnot
    rw [hst] at hmem
    rw [pollOutcome_of_blockMem hmem hn, if_pos hpad]
  · right
    rw [hst] at hmem
    exact pollOutcome_of_aborted hmem hn

/-- At a place without a settled block a poll returns `nullopt`. -/
theorem State.PollsSettled.unsettled (hok : s.PollsSettled Q rd)
    (hnone : ¬ s.SettledAt rd.absReadOffset) :
    pollOutcome Q s.mem rd.absReadOffset = .nullopt := by
  by_contra hout
  exact hnone (hok hout)

/-! ### The steps of a poll -/

/-- A whole `release_buffer` call. -/
theorem ChannelInv.finishRelease (hi : ChannelInv Q s) (hok : ReleaseOk Q (ChannelRun Q) s r) :
    ChannelInv Q (finishRelease Q s r) := by
  have hreach : Reach (MockExchange.step Q) (ChannelRun Q) s
      (MockExchange.finishRelease Q s r) := reach_finishRelease (Reach.refl s) hok
  exact hreach.invariant hi fun _ _ _ hi hok hstep => hi.step hok hstep

/-- What a call of `poll_buffer` that skips a block does next. -/
theorem pollBuffer_skip (hrd : s.readers[r]? = some rd)
    (hout : pollOutcome Q s.mem rd.absReadOffset = .skipPadding ∨
      pollOutcome Q s.mem rd.absReadOffset = .skipAborted) :
    MockExchange.pollBuffer Q (fuel + 1) s r =
      MockExchange.pollBuffer Q fuel (finishRelease Q (pollHeader Q s r rd) r) r := by
  rcases hout with hout | hout <;>
    simp only [MockExchange.pollBuffer, hrd, Option.bind_some, hout]

theorem PollOk.skip {ok : State → Action → Prop} (hok : PollOk Q ok (fuel + 1) s r)
    (hrd : s.readers[r]? = some rd) (hout : pollOutcome Q s.mem rd.absReadOffset = .skipPadding ∨
      pollOutcome Q s.mem rd.absReadOffset = .skipAborted) :
    ReleaseOk Q ok (pollHeader Q s r rd) r ∧
      PollOk Q ok fuel (finishRelease Q (pollHeader Q s r rd) r) r := by
  have hrest := hok.2 rd hrd
  rcases hout with hout | hout
  · simpa only [hout] using hrest
  · simpa only [hout] using hrest

/-- A poll over a block that carries nothing for the reader: it is released. -/
theorem ChannelInv.skip (hi : ChannelInv Q s) (hrd : s.readers[r]? = some rd)
    (hpc : rd.pc = .idle) (hok : PollOk Q (ChannelRun Q) (fuel + 1) s r)
    (hb : b ∈ s.log) (hpos : rd.absReadOffset = b.offset) (hover : s.passesOver Q b = true)
    (hout : pollOutcome Q s.mem rd.absReadOffset = .skipPadding ∨
      pollOutcome Q s.mem rd.absReadOffset = .skipAborted) :
    ∃ rd', ChannelInv Q (MockExchange.finishRelease Q (pollHeader Q s r rd) r) ∧
      s.MovesReader (MockExchange.finishRelease Q (pollHeader Q s r rd) r) r rd' ∧
      rd.MovedPast rd' b := by
  have hstay := (hi.inv.reader rd (List.mem_of_getElem? hrd)).staying (Or.inl hpc)
  have hsettled := (State.settled_of_passesOver hover).1
  have hpolled : ChannelInv Q (pollHeader Q s r rd) :=
    hi.step hok.1 (by simp [MockExchange.step, hrd, hpc])
  let called : Reader := { rd with pc := .releaseCalled (rd.absReadOffset % Q.bytes) }
  have hmoves : s.MovesReader (pollHeader Q s r rd) r called := by
    rcases hout with hout | hout
    · simp only [pollHeader, hout]
      exact ⟨rfl, rfl, rfl, rfl⟩
    · simp only [pollHeader, hout]
      exact ⟨rfl, rfl, rfl, rfl⟩
  have hcalled := hmoves.getElem? hrd
  have howns : Owns Q (pollHeader Q s r rd) called (rd.absReadOffset % Q.bytes) b := by
    refine ⟨by rw [hmoves.log]; exact hb, by rw [hpos]; rfl, hpos, ?_, ?_⟩
    · rw [hmoves.stage]
      exact hsettled
    · have hstay' : called.leaveOffset = none := hstay
      rw [Reader.pending_iff, hstay']
      exact ⟨hpos.le, by simp⟩
  obtain ⟨rd', hmoves', hpast⟩ := hpolled.inv.finishRelease_moves hcalled rfl hstay howns
  exact ⟨rd', hpolled.finishRelease (hok.skip hrd hout).1, hmoves.trans hmoves', hpast.idle,
    hpast.staying, hpast.joinOffset, hpast.position, hpast.received, hpast.decremented⟩

/-- A reader that does not move over anything. -/
theorem Polled.stays (hpc : rd.pc = .idle) (hstay : rd.leaveOffset = none)
    (hpassed : s.passedOver Q rd.absReadOffset = [])
    (hposition : rd.absReadOffset =
      ((s.stopsAt Q rd.absReadOffset).map Block.offset).getD s.writeOffset)
    (hnone : s.nextMessage Q rd.absReadOffset = none) : Polled Q s rd rd := by
  refine ⟨Nat.le_refl _, hposition, by rw [hnone]; exact hpc, by rw [hnone]; simp, ?_, ?_, hstay,
    rfl⟩
  · rw [hpassed]
    simp
  · rw [hpassed, slice_self]

/-- A poll that goes over `b` does behind it what a poll there does. -/
theorem Polled.behind (h : Inv Q s) (hb : b ∈ s.log) (hpos : rd.absReadOffset = b.offset)
    (hover : s.passesOver Q b = true) (hpast : rd.MovedPast rd' b)
    (hmoves : s.MovesReader t r rd') (hpolled : Polled Q t rd' rd'') : Polled Q s rd rd'' := by
  have hunread := h.unread_cons hb
  have hle : b.finish ≤ rd''.absReadOffset := by
    rw [← hpast.position]
    exact hpolled.forward
  have hstop : s.stopsAt Q rd.absReadOffset = t.stopsAt Q rd'.absReadOffset := by
    rw [State.stopsAt, State.stopsAt, hmoves.unread_eq, hmoves.passesOver_eq, hpast.position, hpos,
      hunread, List.dropWhile_cons_of_pos hover]
  have hover' : s.passedOver Q rd.absReadOffset = b :: t.passedOver Q rd'.absReadOffset := by
    rw [State.passedOver, State.passedOver, hmoves.unread_eq, hmoves.passesOver_eq, hpast.position,
      hpos, hunread, List.takeWhile_cons_of_pos hover]
  have hnext : s.nextMessage Q rd.absReadOffset = t.nextMessage Q rd'.absReadOffset := by
    rw [State.nextMessage, State.nextMessage, hstop, hmoves.delivers_eq]
  refine ⟨?_, ?_, ?_, ?_, ?_, ?_, hpolled.staying, hpolled.joinOffset.trans hpast.joinOffset⟩
  · simp only [Block.finish] at hle
    omega
  · rw [hpolled.position, hstop, hmoves.writeOffset]
  · rw [hpolled.pc, hnext]
  · rw [hpolled.received, hnext, hpast.received]
  · rw [hpolled.decremented, hover', hpast.decremented, List.map_cons, List.append_assoc]
    rfl
  · rw [hover', hpolled.between, hmoves.log, hpast.position, hpos, h.slice_cons hb hle]

/-- A poll that finds no settled block at its reader's offset stays there. -/
theorem Polled.of_unsettled (h : Inv Q s) (hrd : rd ∈ s.readers) (hpc : rd.pc = .idle)
    (hnone : ¬ s.SettledAt rd.absReadOffset) : Polled Q s rd rd := by
  have hstay := (h.reader rd hrd).staying (Or.inl hpc)
  rcases (h.reader rd hrd).boundary with hend | ⟨b, hb, hpos⟩
  · -- nothing is reserved at the reader's offset
    have hunread : s.unread rd.absReadOffset = [] := by
      rw [hend]
      exact State.unread_end
    have hstop : s.stopsAt Q rd.absReadOffset = none := by rw [State.stopsAt, hunread]; rfl
    refine .stays hpc hstay ?_ ?_ ?_
    · rw [State.passedOver, hunread]
      rfl
    · rw [hstop]
      exact hend
    · rw [State.nextMessage, hstop]
      rfl
  · have hunread := h.unread_cons hb
    rw [hpos] at hunread
    have hunsettled : (s.stage b.offset).settled = false := by
      by_contra hst
      exact hnone ⟨b, hb, hpos, by rw [← hpos]; simpa using hst⟩
    have hover : s.passesOver Q b = false := by simp [State.passesOver, hunsettled]
    have hdelivers : s.delivers Q b = false := by
      by_contra hdelivers
      rw [State.settled_of_delivers (by simpa using hdelivers)] at hunsettled
      cases hunsettled
    have hstop : s.stopsAt Q rd.absReadOffset = some b := by
      rw [State.stopsAt, hunread, List.dropWhile_cons_of_neg (by simp [hover])]
      rfl
    refine .stays hpc hstay ?_ ?_ ?_
    · rw [State.passedOver, hunread, List.takeWhile_cons_of_neg (by simp [hover])]
    · rw [hstop]
      exact hpos.symm
    · simp [State.nextMessage, hstop, hdelivers]

/-- A poll at a message hands it out. -/
theorem ChannelInv.handOut (hi : ChannelInv Q s) (hrd : s.readers[r]? = some rd)
    (hpc : rd.pc = .idle) (hb : b ∈ s.log) (hpos : rd.absReadOffset = b.offset)
    (hdelivers : s.delivers Q b = true) :
    ∃ rd', s.MovesReader (pollHeader Q s r rd) r rd' ∧ Polled Q s rd rd' := by
  have hmem := List.mem_of_getElem? hrd
  have hstay := (hi.inv.reader rd hmem).staying (Or.inl hpc)
  have hsettled := State.settled_of_delivers hdelivers
  have hout := hi.inv.pollOutcome_delivers hmem hpc hb hpos hdelivers
  have hunread := hi.inv.unread_cons hb
  rw [← hpos] at hunread
  have hover : s.passesOver Q b = false := by simp [State.passesOver, hdelivers]
  have hstop : s.stopsAt Q rd.absReadOffset = some b := by
    rw [State.stopsAt, hunread, List.dropWhile_cons_of_neg (by simp [hover])]
    rfl
  have hpassed : s.passedOver Q rd.absReadOffset = [] := by
    rw [State.passedOver, hunread, List.takeWhile_cons_of_neg (by simp [hover])]
  have hnext : s.nextMessage Q rd.absReadOffset = some b := by
    simp [State.nextMessage, hstop, hdelivers]
  obtain ⟨c, howns⟩ := hi.inv.owns_of_staying hrd (Or.inl hpc)
    ⟨b, hb, hpos.symm, by rw [hpos]; exact hsettled⟩
  obtain rfl := hi.inv.eq_of_offset_eq hb howns.mem_log (hpos.symm.trans howns.position)
  have hpayload := hi.delivered.payload_eq hi.inv hmem howns hdelivers
  have hheld : pollHeader Q s r rd = MockExchange.handOut
      (assertFits Q s (rd.absReadOffset % Q.bytes)) r rd (rd.absReadOffset % Q.bytes) := by
    simp only [pollHeader, hout]
  refine ⟨{ rd with
    pc := .holding (rd.absReadOffset % Q.bytes), received := rd.received ++ [b.data] }, ?_, ?_⟩
  · rw [hheld]
    refine ⟨rfl, rfl, rfl, ?_⟩
    rw [← hpayload]
    rfl
  · refine ⟨Nat.le_refl _, ?_, ?_, ?_, ?_, ?_, hstay, rfl⟩
    · rw [hstop]
      exact hpos
    · rw [hnext, hpos]
      rfl
    · rw [hnext]
      rfl
    · rw [hpassed]
      simp
    · rw [hpassed, slice_self]

/-- A poll whose fuel covers the blocks that its reader goes over returns. -/
theorem ChannelInv.pollBuffer (hi : ChannelInv Q s) (hrd : s.readers[r]? = some rd)
    (hpc : rd.pc = .idle) (hok : PollOk Q (ChannelRun Q) fuel s r)
    (hfuel : (s.passedOver Q rd.absReadOffset).length < fuel) :
    ∃ t rd', MockExchange.pollBuffer Q fuel s r = some t ∧ ChannelInv Q t ∧
      s.MovesReader t r rd' ∧ Polled Q s rd rd' := by
  induction fuel generalizing s rd with
  | zero => omega
  | succ fuel ih =>
    have hmem := List.mem_of_getElem? hrd
    have hfirst := hok.1
    have hsettles : s.PollsSettled Q rd := hfirst.1 rd hrd
    by_cases hsettled : s.SettledAt rd.absReadOffset
    · obtain ⟨b, hb, hoff, hst⟩ := hsettled
      have hpos := hoff.symm
      rw [hpos] at hst
      cases hdelivers : s.delivers Q b with
      | true =>
        have hout := hi.inv.pollOutcome_delivers hmem hpc hb hpos hdelivers
        obtain ⟨rd', hmoves, hpolled⟩ := hi.handOut hrd hpc hb hpos hdelivers
        refine ⟨pollHeader Q s r rd, rd', ?_, ?_, hmoves, hpolled⟩
        · simp [MockExchange.pollBuffer, hrd, hout]
        · exact hi.step hfirst (by simp [MockExchange.step, hrd, hpc])
      | false =>
        have hover : s.passesOver Q b = true := by simp [State.passesOver, hst, hdelivers]
        have hout := hi.inv.pollOutcome_passesOver hmem hpc hb hpos hover
        obtain ⟨rd₁, hi₁, hmoves₁, hpast⟩ := hi.skip hrd hpc hok hb hpos hover hout
        have hlength : (s.passedOver Q rd.absReadOffset).length =
            (State.passedOver Q (MockExchange.finishRelease Q (pollHeader Q s r rd) r)
              rd₁.absReadOffset).length + 1 := by
          rw [State.passedOver, State.passedOver, hmoves₁.unread_eq, hmoves₁.passesOver_eq,
            hpast.position, hpos, hi.inv.unread_cons hb, List.takeWhile_cons_of_pos hover,
            List.length_cons]
        obtain ⟨t, rd₂, hpoll, hi₂, hmoves₂, hpolled⟩ :=
          ih hi₁ (hmoves₁.getElem? hrd) hpast.idle (hok.skip hrd hout).2 (by omega)
        refine ⟨t, rd₂, ?_, hi₂, hmoves₁.trans hmoves₂,
          .behind hi.inv hb hpos hover hpast hmoves₁ hpolled⟩
        rw [pollBuffer_skip hrd hout]
        exact hpoll
    · have hout := hsettles.unsettled hsettled
      refine ⟨s, rd, ?_, hi, .refl hrd, .of_unsettled hi.inv hmem hpc hsettled⟩
      simp [MockExchange.pollBuffer, hrd, hout]

/-- With one payload size, without closes and aborts, the conditions on a poll
need no look at the ring. -/
theorem UniformInv.pollOk {size : Nat} (hi : UniformInv Q size s) (hrd : s.readers[r]? = some rd)
    (hpc : rd.pc = .idle) : PollOk Q (ChannelRun Q) fuel s r := by
  induction fuel generalizing s rd with
  | zero => trivial
  | succ fuel ih =>
    have hpolls : UniformRun Q size s (.poll r) := ⟨trivial, trivial⟩
    have hpolled : UniformInv Q size (pollHeader Q s r rd) :=
      hi.step hpolls (by simp [MockExchange.step, hrd, hpc])
    have hsteps : ∀ k, UniformInv Q size ((releaseStep Q · r)^[k] (pollHeader Q s r rd)) := by
      intro k
      induction k with
      | zero => exact hpolled
      | succ k ih =>
        rw [Function.iterate_succ_apply']
        have hreach : Reach (MockExchange.step Q) (UniformRun Q size)
            ((releaseStep Q · r)^[k] (pollHeader Q s r rd)) (releaseStep Q _ r) :=
          reach_releaseStep ⟨trivial, trivial⟩
        exact hreach.invariant ih fun _ _ _ hi hok hstep => hi.step hok hstep
    have hskip : (pollHeader Q s r rd).readers =
        s.readers.set r { rd with pc := .releaseCalled (rd.absReadOffset % Q.bytes) } →
        ReleaseOk Q (ChannelRun Q) (pollHeader Q s r rd) r ∧
          PollOk Q (ChannelRun Q) fuel (finishRelease Q (pollHeader Q s r rd) r) r := by
      intro hreaders
      refine ⟨fun k _ => (hsteps k).channelRun ⟨trivial, trivial⟩, ?_⟩
      obtain ⟨rd', hfinal, -, hpc'⟩ := finishRelease_called (Q := Q) hrd
        (hi.staying rd (List.mem_of_getElem? hrd)) hreaders
      have hrd' : (finishRelease Q (pollHeader Q s r rd) r).readers[r]? = some rd' := by
        rw [hfinal, List.getElem?_set_self (lt_of_getElem? hrd)]
      exact ih (hsteps 6) hrd' hpc'
    refine ⟨hi.channelRun hpolls, ?_⟩
    intro x hx
    rw [hrd, Option.mem_some_iff] at hx
    subst hx
    cases hout : pollOutcome Q s.mem rd.absReadOffset with
    | skipPadding => exact hskip (by simp only [pollHeader, hout]; rfl)
    | skipAborted => exact hskip (by simp only [pollHeader, hout]; rfl)
    | _ => trivial

/-! ### How many calls it makes -/

theorem State.passedOver_length_le (s : State) (p : Nat) :
    (s.passedOver Q p).length ≤ s.log.length :=
  ((List.takeWhile_sublist _).trans List.filter_sublist).length_le

/-- With room for every message and two headers in the ring, no skip message
follows another: behind one the ring starts over. -/
theorem Inv.passedOver_length_le (h : Inv Q s) (hrd : rd ∈ s.readers)
    (hfit : ∀ b ∈ s.log, b.size + 36 ≤ Q.bytes) (hno : s.NoAborts) :
    (s.passedOver Q rd.absReadOffset).length ≤ 1 := by
  have hpadding : ∀ b ∈ s.log, s.passesOver Q b = true → b.isPadding Q = true := by
    intro b hb hover
    obtain ⟨hsettled, hnot⟩ := State.settled_of_passesOver hover
    have hst : s.stage b.offset = .committed :=
      (Stage.settled_iff.mp hsettled).resolve_right (hno b hb)
    by_contra hpad
    rw [State.delivers_of_committed hst (by simpa using hpad)] at hnot
    cases hnot
  rcases (h.reader rd hrd).boundary with hend | ⟨b, hb, hpos⟩
  · rw [State.passedOver, hend, State.unread_end]
    exact Nat.zero_le 1
  · rw [State.passedOver, ← hpos, h.unread_cons hb]
    cases hover : s.passesOver Q b with
    | false => simp [hover]
    | true =>
      have hshape := h.shape b hb
      have hpad := hpadding b hb hover
      have hstart : b.finish % Q.bytes = 0 := by
        rcases hshape.cases with ⟨hnormal, -⟩ | ⟨-, hend, -⟩
        · rw [hpad] at hnormal
          cases hnormal
        · rw [Block.finish, ← Nat.mod_add_mod]
          change (b.hdr Q + b.length) % Q.bytes = 0
          rw [hend, Nat.mod_self]
      rw [List.takeWhile_cons_of_pos hover, List.length_cons]
      rcases h.tiles.boundary_end hb with hend | ⟨c, hc, hcstart⟩
      · have hfinish : b.finish = s.writeOffset := hend
        rw [hfinish, State.unread_end]
        exact Nat.le_refl 1
      · have hfinish : c.offset = b.finish := hcstart
        have hnormal : s.passesOver Q c = false := by
          by_contra hover'
          have hpad' := hpadding c hc (by simpa using hover')
          have hhdr : c.hdr Q = 0 := by rw [Block.hdr, hfinish, hstart]
          rcases (h.shape c hc).cases with ⟨hnormal, -⟩ | ⟨-, -, hroom⟩
          · rw [hpad'] at hnormal
            cases hnormal
          · have hsize := hfit c hc
            rw [hhdr] at hroom
            omega
        rw [← hfinish, h.unread_cons hc, List.takeWhile_cons_of_neg (by simp [hnormal])]
        exact Nat.le_refl 1

/-- **What `poll_buffer` returns.** It hands out the first committed message in
front of its reader if only skip messages and aborted claims are before it, and
`nullopt` otherwise, and calls itself once for each of them. Without aborts there
is at most one where every message fits into the ring with two headers. -/
theorem poll_buffer (hreach : Reach (step Q) (ChannelRun Q) State.init s)
    (hrd : s.readers[r]? = some rd) (hpc : rd.pc = .idle) :
    (∀ fuel, PollOk Q (ChannelRun Q) fuel s r →
      (s.passedOver Q rd.absReadOffset).length < fuel → ∃ t rd',
        pollBuffer Q fuel s r = some t ∧ s.MovesReader t r rd' ∧ Polled Q s rd rd') ∧
    ((∀ b ∈ s.log, b.size + 36 ≤ Q.bytes) → s.NoAborts →
      (s.passedOver Q rd.absReadOffset).length ≤ 1) := by
  have hi := ChannelInv.of_run hreach
  refine ⟨fun fuel hok hfuel => ?_, hi.inv.passedOver_length_le (List.mem_of_getElem? hrd)⟩
  obtain ⟨t, rd', hpoll, -, hmoves, hpolled⟩ := hi.pollBuffer hrd hpc hok hfuel
  exact ⟨t, rd', hpoll, hmoves, hpolled⟩

end

/-- A reader with an aborted claim and a skip message in front of it and a message
behind these; another one has left. -/
theorem poll_buffer_over_aborted : ∃ (s t : State) (rd rd' : Reader),
    s.readers[0]? = some rd ∧ pollBuffer .smallest 3 s 0 = some t ∧ Polled .smallest s rd rd' ∧
      s.readers.map Reader.pc = [.idle, .closed] ∧
      (s.passedOver .smallest rd.absReadOffset).map Block.offset = [20, 39] ∧
      (s.nextMessage .smallest rd.absReadOffset).map Block.data = some [9] := by
  let b : Block := ⟨0, 20, 2, 2, [7, 8]⟩
  let c : Block := ⟨20, 19, 1, 1, [7]⟩
  let pad : Block := ⟨39, 25, 1, 1, [9]⟩
  let d : Block := ⟨64, 19, 1, 1, [9]⟩
  let claim (b : Block) : List Action := [.reserve b.size b.data, .loadReadOffset b,
    .storeHeader b, .storeHeader b, .storeHeader b, .storeHeader b]
  let read (r steps : Nat) : List Action :=
    [.poll r, .callRelease r] ++ List.replicate steps (.releaseStep r)
  let labels : List Action := [.join, .join] ++ claim b ++ [.writeToBuffer b] ++ read 0 1 ++
    read 1 6 ++ [.leave 1, .drain 1] ++ claim c ++ [.abortBuffer c] ++ claim pad ++
    [.finishSkip pad] ++ claim d ++ [.writeToBuffer d]
  have hexec : (exec (step .smallest) (ChannelRun .smallest) State.init labels).any (fun s =>
      s.readers[0]?.any fun rd => decide (s.readers.map Reader.pc = [.idle, .closed] ∧
        rd.pc = .idle ∧ PollOk .smallest (ChannelRun .smallest) 3 s 0 ∧
        (s.passedOver .smallest rd.absReadOffset).map Block.offset = [20, 39] ∧
        (s.nextMessage .smallest rd.absReadOffset).map Block.data = some [9])) = true := by
    decide +kernel
  obtain ⟨s, hrun, hs⟩ := exists_run_of_exec hexec
  obtain ⟨rd, hrd, hs⟩ := (Option.any_eq_true _ _).mp hs
  obtain ⟨hpcs, hpc, hok, hpassed, hnext⟩ := of_decide_eq_true hs
  have hlength : (s.passedOver .smallest rd.absReadOffset).length < 3 := by
    rw [← List.length_map Block.offset, hpassed]
    decide
  obtain ⟨t, rd', hpoll, -, hpolled⟩ := (poll_buffer ⟨labels, hrun⟩ hrd hpc).1 3 hok hlength
  exact ⟨s, t, rd, rd', hrd, hpoll, hpolled, hpcs, hpassed, hnext⟩

end MockExchange
