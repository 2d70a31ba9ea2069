import MockExchange.PollBuffer
import MockExchange.CatchUp

/-!
# What a reader keeps while others step

A step of another writer or reader leaves a reader's own members as they are,
appends to the log and keeps what was settled. So `read_buffer`, which polls
again and again while others go on, does in the end what one poll does.
-/

namespace MockExchange

open ByteMemory Tiling MessageHeader Transition ListUpdate

variable (Q : RingSize)

instance (r : Nat) (a : Action) : Decidable (a.isReadBy r) := by
  apply Action.casesOn (motive := fun a => Decidable (a.isReadBy r)) a <;> intros <;>
    dsimp only [Action.isReadBy] <;> infer_instance

/-- The steps of reader `r`. -/
def Action.isOf (r : Nat) : Action → Prop
  | .leave r' | .drain r' => r' = r
  | a => a.isReadBy r

instance (r : Nat) (a : Action) : Decidable (a.isOf r) := by
  apply Action.casesOn (motive := fun a => Decidable (a.isOf r)) a <;> intros <;>
    dsimp only [Action.isOf] <;> infer_instance

/-- The steps of everybody but reader `r`, with payloads of any sizes, aborts,
joins and closes. -/
def BesideRun (r : Nat) (s : State) (a : Action) : Prop := ChannelRun Q s a ∧ ¬ a.isOf r

instance (r : Nat) (s : State) (a : Action) : Decidable (BesideRun Q r s a) := by
  unfold BesideRun; infer_instance

/-- Reader `r` has a wrapper. -/
def State.hasWrapper (s : State) (r : Nat) : Bool :=
  (s.readers[r]?.map fun rd => match rd.pc with
    | .holding _ => true
    | _ => false).getD false

/-- `poll_buffer` with fuel for every block there is. -/
def State.poll (s : State) (r : Nat) : Option State := pollBuffer Q (s.log.length + 1) s r

/-- One round of `read_buffer` that ends in `ReadPolicy::execute`: a poll without
a wrapper, and the steps of others until the next one. -/
def readRound (r : Nat) (s : State) (others : List Action) : Option State :=
  (s.poll Q r).bind fun t =>
    if t.hasWrapper r then none else exec (step Q) (BesideRun Q r) t others

/-- `read_buffer`, where others take the steps `rounds` between its polls. -/
def readBuffer (r : Nat) : State → List (List Action) → Option State
  | s, rounds => (s.poll Q r).bind fun t =>
    if t.hasWrapper r then some t
    else match rounds with
      | [] => none
      | others :: rounds => (exec (step Q) (BesideRun Q r) t others).bind fun u =>
        readBuffer r u rounds

/-- The conditions of the channel hold at the steps of a poll by reader `r`. -/
def State.PollOk (s : State) (r : Nat) : Prop :=
  OpOk Q (ChannelRun Q) s (.pollBuffer r (s.log.length + 1))

/-- They hold at every poll that `read_buffer` makes. -/
def ReadOk (r : Nat) : State → List (List Action) → Prop
  | s, [] => s.PollOk Q r
  | s, others :: rounds => s.PollOk Q r ∧ ∀ t ∈ readRound Q r s others, ReadOk r t rounds

instance (s : State) (r : Nat) : Decidable (s.PollOk Q r) := by
  unfold State.PollOk; infer_instance

instance decidableReadOk (r : Nat) : ∀ s rounds, Decidable (ReadOk Q r s rounds)
  | s, [] => by
    unfold ReadOk
    infer_instance
  | s, others :: rounds => by
    have ih := fun t => decidableReadOk r t rounds
    unfold ReadOk
    infer_instance

/-- `t` is later than `s`, with only others in between. -/
structure State.Later (s t : State) (r : Nat) : Prop where
  reader : t.readers[r]? = s.readers[r]?
  writeOffset : s.writeOffset ≤ t.writeOffset
  slice : ∀ c d, d ≤ s.writeOffset → slice Block.offset t.log c d = slice Block.offset s.log c d
  stage : ∀ b ∈ s.log, (s.stage b.offset).settled = true → t.stage b.offset = s.stage b.offset

/-- `rd'` is reader `rd` of `s` behind blocks without a message. -/
structure PassedOver (s : State) (rd rd' : Reader) : Prop where
  idle : rd'.pc = .idle
  le : rd.absReadOffset ≤ rd'.absReadOffset
  skips : ∀ b ∈ slice Block.offset s.log rd.absReadOffset rd'.absReadOffset,
    s.passesOver Q b = true
  received : rd'.received = rd.received
  decremented : rd'.decremented = rd.decremented ++
    (slice Block.offset s.log rd.absReadOffset rd'.absReadOffset).map Block.offset
  joinOffset : rd'.joinOffset = rd.joinOffset

/-- What holds at the head of the loop of `read_buffer`, which reader `rd` called. -/
structure AwaitsMessage (r : Nat) (rd : Reader) (s : State) : Prop where
  channel : ChannelInv Q s
  reader : ∃ rd', s.readers[r]? = some rd' ∧ PassedOver Q s rd rd'

section

variable {Q} {s t u : State} {b : Block} {a : Action} {r : Nat} {rd rd' rd'' : Reader}

/-! ### Steps of others -/

theorem reader_of_others (hstep : step Q s a = some t) (hother : ¬ a.isOf r)
    (hrd : s.readers[r]? = some rd) : t.readers[r]? = some rd := by
  have hset : ∀ {r' : Nat} {rd' : Reader}, r' ≠ r → (s.readers.set r' rd')[r]? = some rd := by
    intro r' rd' hne
    rw [List.getElem?_set_ne hne, hrd]
  cases Taken.of_step hstep with
  | join =>
    have hnew : (join s).readers = s.readers ++ _ := rfl
    rw [hnew, List.getElem?_append_left (lt_of_getElem? hrd), hrd]
  | reserve => exact hrd
  | loadReadOffset =>
    simp only [loadReadOffset]
    split <;> exact hrd
  | storeHeader =>
    simp only [storeHeader]
    split <;> exact hrd
  | finishSkip => exact hrd
  | writeToBuffer => exact hrd
  | abortBuffer => exact hrd
  | poll =>
    simp only [pollHeader]
    split
    · exact hrd
    all_goals exact hset hother
  | loadCommitFlag =>
    simp only [loadCommitFlag]
    split
    · exact hset hother
    · split
      · exact hset hother
      · exact hrd
  | loadAbsOffset => exact hset hother
  | loadSizeAndType =>
    simp only [loadSizeAndType]
    split <;> exact hset hother
  | releaseHeld => exact hset hother
  | releaseNext => exact hset hother
  | fetchSub => exact hset hother
  | @clearStep _ _ _ _ step => cases step <;> exact hset hother
  | leave => exact hset hother
  | drain =>
    simp only [drain]
    split <;> exact hset hother

theorem Change.log_eq (h : Change Q s a t) :
    t.log = s.log ∨ ∃ b, b.offset = s.writeOffset ∧ t.log = s.log ++ [b] := by
  cases h with
  | @reserve n data => exact Or.inr ⟨newBlock Q s n data, rfl, rfl⟩
  | clearStep => exact Or.inl (clearStep_keeps s _ _ _ _ _).1
  | _ => exact Or.inl rfl

/-- A settled block stays as it was settled. -/
theorem Change.stage_eq (h : Change Q s a t) (hi : Inv Q s) (hb : b ∈ s.log)
    (hst : (s.stage b.offset).settled = true) : t.stage b.offset = s.stage b.offset := by
  cases h with
  | @reserve n data =>
    have hlt := hi.offset_lt hb
    exact Function.update_of_ne (by simp only [newBlock]; omega) _ _
  | write _ hunsettled =>
    apply Function.update_of_ne
    intro hsame
    rw [hsame, hunsettled] at hst
    cases hst
  | clearStep => rw [(clearStep_keeps s _ _ _ _ _).2.1]
  | _ => rfl

theorem State.Later.refl (s : State) (r : Nat) : s.Later s r :=
  ⟨rfl, Nat.le_refl _, fun _ _ _ => rfl, fun _ _ _ => rfl⟩

theorem State.Later.mem_log (h : s.Later t r) (hi : Inv Q s) (hb : b ∈ s.log) : b ∈ t.log := by
  have hmem := mem_slice.mpr ⟨hb, Nat.le_refl b.offset, hi.offset_lt hb⟩
  rw [← h.slice _ _ (Nat.le_refl _)] at hmem
  exact (mem_slice.mp hmem).1

theorem State.Later.trans (h : s.Later t r) (h' : t.Later u r) (hi : Inv Q s) : s.Later u r where
  reader := h'.reader.trans h.reader
  writeOffset := h.writeOffset.trans h'.writeOffset
  slice c d hd := by rw [h'.slice c d (hd.trans h.writeOffset), h.slice c d hd]
  stage b hb hst := by
    have hsame := h.stage b hb hst
    rw [h'.stage b (h.mem_log hi hb) (by rw [hsame]; exact hst), hsame]

/-- Nobody takes a settled block back, and the log only grows at its end. -/
theorem Inv.later_step (hi : Inv Q s) (hi' : Inv Q t) (hrd : s.readers[r]? = some rd)
    (hother : ¬ a.isOf r) (hstep : MockExchange.step Q s a = some t) : s.Later t r := by
  have hchange := (Taken.of_step hstep).change
  have hreader := reader_of_others hstep hother hrd
  have htiles := hi'.tiles
  refine ⟨hreader.trans hrd.symm, ?_, ?_, fun b hb hst => hchange.stage_eq hi hb hst⟩
  · rcases hchange.log_eq with hlog | ⟨b, hoff, hlog⟩
    · rw [hlog] at htiles
      exact Nat.le_of_eq (hi.tiles.end_unique htiles)
    · have hbounds := htiles.bounds (x := b) (by simp [hlog])
      omega
  · intro c d hd
    rcases hchange.log_eq with hlog | ⟨b, hoff, hlog⟩
    · rw [hlog]
    · rw [hlog, slice_append_of_le (by omega)]

/-- Others can take any number of steps. -/
theorem ChannelInv.later (hi : ChannelInv Q s) (hrd : s.readers[r]? = some rd)
    (hreach : Reach (MockExchange.step Q) (BesideRun Q r) s t) :
    ChannelInv Q t ∧ s.Later t r := by
  refine hreach.invariant (P := fun t => ChannelInv Q t ∧ s.Later t r) ⟨hi, .refl s r⟩ ?_
  rintro t a u ⟨ht, hlater⟩ hok hstep
  have hu := ht.step hok.1 hstep
  have hnext := ht.inv.later_step hu.inv (hlater.reader.trans hrd) hok.2 hstep
  exact ⟨hu, hlater.trans hnext hi.inv⟩

/-! ### The loop of read_buffer -/

theorem State.passesOver_congr (hst : t.stage b.offset = s.stage b.offset) :
    t.passesOver Q b = s.passesOver Q b := by
  rw [State.passesOver, State.passesOver, State.delivers, State.delivers, hst]

theorem PassedOver.refl (hpc : rd.pc = .idle) : PassedOver Q s rd rd := by
  refine ⟨hpc, Nat.le_refl _, ?_, rfl, ?_, rfl⟩ <;> simp

/-- A poll that finds no message goes over other blocks only. -/
theorem Polled.passedOver (h : Polled Q s rd rd')
    (hnone : s.nextMessage Q rd.absReadOffset = none) : PassedOver Q s rd rd' where
  idle := by rw [h.pc, hnone]; rfl
  le := h.forward
  skips b hb := by
    rw [← h.between] at hb
    exact List.all_eq_true.mp (List.all_takeWhile ..) b hb
  received := by rw [h.received, hnone]; simp
  decremented := by rw [h.decremented, h.between]
  joinOffset := h.joinOffset

theorem PassedOver.moves (h : PassedOver Q s rd rd') (hmoves : s.MovesReader t r rd'') :
    PassedOver Q t rd rd' := by
  refine ⟨h.idle, h.le, ?_, h.received, ?_, h.joinOffset⟩
  · rw [hmoves.log, hmoves.passesOver_eq]
    exact h.skips
  · rw [hmoves.log]
    exact h.decremented

theorem PassedOver.later (h : PassedOver Q s rd rd') (hlater : s.Later t r)
    (hle : rd'.absReadOffset ≤ s.writeOffset) : PassedOver Q t rd rd' := by
  have hslice := hlater.slice rd.absReadOffset rd'.absReadOffset hle
  refine ⟨h.idle, h.le, ?_, h.received, ?_, h.joinOffset⟩
  · intro b hb
    rw [hslice] at hb
    have hskips := h.skips b hb
    have hsettled : (s.stage b.offset).settled = true := by
      rw [State.passesOver, Bool.and_eq_true] at hskips
      exact hskips.1
    rw [State.passesOver_congr (hlater.stage b (mem_slice.mp hb).1 hsettled)]
    exact hskips
  · rw [hslice]
    exact h.decremented

/-- A poll from behind blocks without a message does what one from before them does. -/
theorem PassedOver.polled (h : PassedOver Q s rd rd') (hi : Inv Q s) (hrd : rd' ∈ s.readers)
    (hpolled : Polled Q s rd' rd'') : Polled Q s rd rd'' := by
  have hr := hi.reader rd' hrd
  have hle := hpolled.forward
  have hunread : s.unread rd.absReadOffset =
      slice Block.offset s.log rd.absReadOffset rd'.absReadOffset ++
        s.unread rd'.absReadOffset :=
    hi.tiles.slice_adjacent h.le (hr.boundary.le hi.tiles)
  have hstop : s.stopsAt Q rd.absReadOffset = s.stopsAt Q rd'.absReadOffset := by
    rw [State.stopsAt, State.stopsAt, hunread, List.dropWhile_append_of_pos h.skips]
  have hbetween : s.passedOver Q rd.absReadOffset =
      slice Block.offset s.log rd.absReadOffset rd'.absReadOffset ++
        s.passedOver Q rd'.absReadOffset := by
    rw [State.passedOver, State.passedOver, hunread, List.takeWhile_append_of_pos h.skips]
  have hnext : s.nextMessage Q rd.absReadOffset = s.nextMessage Q rd'.absReadOffset := by
    rw [State.nextMessage, State.nextMessage, hstop]
  refine ⟨h.le.trans hle, ?_, ?_, ?_, ?_, ?_, hpolled.staying,
    hpolled.joinOffset.trans h.joinOffset⟩
  · rw [hpolled.position, hstop]
  · rw [hpolled.pc, hnext]
  · rw [hpolled.received, hnext, h.received]
  · rw [hpolled.decremented, hbetween, h.decremented, List.map_append, List.append_assoc]
  · rw [hbetween, hpolled.between, ← hi.tiles.slice_adjacent h.le hle]

theorem Polled.hasWrapper (h : Polled Q s rd rd') (hmoves : s.MovesReader t r rd')
    (hrd : s.readers[r]? = some rd'') :
    t.hasWrapper r = (s.nextMessage Q rd.absReadOffset).isSome := by
  rw [State.hasWrapper, hmoves.getElem? hrd, Option.map_some, h.pc]
  cases s.nextMessage Q rd.absReadOffset <;> rfl

/-- The next poll of the loop does what a poll before it would do now. -/
theorem AwaitsMessage.poll (h : AwaitsMessage Q r rd s) (hok : s.PollOk Q r) :
    ∃ t rd', s.poll Q r = some t ∧ ChannelInv Q t ∧ s.MovesReader t r rd' ∧
      t.readers[r]? = some rd' ∧ Polled Q s rd rd' ∧
        t.hasWrapper r = (s.nextMessage Q rd.absReadOffset).isSome := by
  obtain ⟨rd₁, hrd₁, hpassed⟩ := h.reader
  have hmem := List.mem_of_getElem? hrd₁
  have hcalls := s.passedOver_length_le (Q := Q) rd₁.absReadOffset
  obtain ⟨t, rd', hpoll, hi, hmoves, hpolled⟩ :=
    h.channel.pollBuffer hrd₁ hpassed.idle hok (Nat.lt_succ_of_le hcalls)
  have hpolled := hpassed.polled h.channel.inv hmem hpolled
  exact ⟨t, rd', hpoll, hi, hmoves, hmoves.getElem? hrd₁, hpolled, hpolled.hasWrapper hmoves hrd₁⟩

/-- A round without a wrapper leads to the head of the loop again. -/
theorem AwaitsMessage.round (h : AwaitsMessage Q r rd s) (hok : s.PollOk Q r)
    {others : List Action} (hround : readRound Q r s others = some u) :
    AwaitsMessage Q r rd u := by
  obtain ⟨t, rd', hpoll, hi, hmoves, hrd', hpolled, hwrapper⟩ := h.poll hok
  rw [readRound, hpoll, Option.bind_some, hwrapper] at hround
  cases hnext : s.nextMessage Q rd.absReadOffset with
  | some b => simp [hnext] at hround
  | none =>
    simp only [hnext, Option.isSome_none, Bool.false_eq_true, if_false] at hround
    obtain ⟨hu, hlater⟩ := hi.later hrd' ⟨others, run_of_exec hround⟩
    have hpassed := (hpolled.passedOver hnext).moves hmoves
    have hend := (hi.inv.reader rd' (List.mem_of_getElem? hrd')).boundary.le hi.inv.tiles
    exact ⟨hu, rd', hlater.reader.trans hrd', hpassed.later hlater hend⟩

theorem ReadOk.first {rounds : List (List Action)} (hok : ReadOk Q r s rounds) :
    s.PollOk Q r := by
  cases rounds with
  | nil => exact hok
  | cons others rounds => exact hok.1

/-- After any number of rounds the loop is at its head, and what is left of the
steps of others meets the conditions. -/
theorem AwaitsMessage.run (h : AwaitsMessage Q r rd s) {rounds rest : List (List Action)}
    (hrun : Run (readRound Q r) (fun _ _ => True) s rounds t)
    (hok : ReadOk Q r s (rounds ++ rest)) : AwaitsMessage Q r rd t ∧ ReadOk Q r t rest := by
  induction hrun generalizing rest with
  | nil => exact ⟨h, hok⟩
  | snoc _ _ hround ih =>
    rw [List.append_assoc, List.singleton_append] at hok
    obtain ⟨hhead, hpolls, hlater⟩ := ih hok
    exact ⟨hhead.round hpolls hround, hlater _ hround⟩

theorem readBuffer_eq (s : State) (rounds : List (List Action)) :
    readBuffer Q r s rounds = (s.poll Q r).bind fun t =>
      if t.hasWrapper r then some t
      else match rounds with
        | [] => none
        | others :: rounds => (exec (step Q) (BesideRun Q r) t others).bind fun u =>
          readBuffer Q r u rounds := by
  cases rounds <;> rfl

/-- After a round without a wrapper the rest of the loop is left. -/
theorem readBuffer_round {others : List Action} {rounds : List (List Action)}
    (hround : readRound Q r s others = some u) :
    readBuffer Q r s (others :: rounds) = readBuffer Q r u rounds := by
  rw [readRound, Option.bind_eq_some_iff] at hround
  obtain ⟨t, hpoll, hround⟩ := hround
  split at hround
  · cases hround
  · rename_i hwrapper
    rw [readBuffer_eq, hpoll, Option.bind_some, if_neg hwrapper]
    simp only [hround, Option.bind_some]

theorem readBuffer_run {rounds rest : List (List Action)}
    (hrun : Run (readRound Q r) (fun _ _ => True) s rounds t) :
    readBuffer Q r s (rounds ++ rest) = readBuffer Q r t rest := by
  induction hrun generalizing rest with
  | nil => rfl
  | snoc _ _ hround ih => rw [List.append_assoc, ih, List.singleton_append, readBuffer_round hround]

theorem State.MovesReader.stopsAt_eq (h : s.MovesReader t r rd') (p : Nat) :
    t.stopsAt Q p = s.stopsAt Q p := by
  rw [State.stopsAt, State.stopsAt, h.unread_eq, h.passesOver_eq]

theorem State.MovesReader.nextMessage_eq (h : s.MovesReader t r rd') (p : Nat) :
    t.nextMessage Q p = s.nextMessage Q p := by
  rw [State.nextMessage, State.nextMessage, h.stopsAt_eq, h.delivers_eq]

theorem State.MovesReader.passedOver_eq (h : s.MovesReader t r rd') (p : Nat) :
    t.passedOver Q p = s.passedOver Q p := by
  rw [State.passedOver, State.passedOver, h.unread_eq, h.passesOver_eq]

/-- What a poll did is seen behind it as well. -/
theorem Polled.moves (h : Polled Q s rd rd') (hmoves : s.MovesReader t r rd'') :
    Polled Q t rd rd' := by
  refine ⟨h.forward, ?_, ?_, ?_, ?_, ?_, h.staying, h.joinOffset⟩
  · rw [hmoves.stopsAt_eq, hmoves.writeOffset]
    exact h.position
  · rw [hmoves.nextMessage_eq]
    exact h.pc
  · rw [hmoves.nextMessage_eq]
    exact h.received
  · rw [hmoves.passedOver_eq]
    exact h.decremented
  · rw [hmoves.passedOver_eq, hmoves.log]
    exact h.between

/-- What `read_buffer` returns it has from its last poll. -/
theorem Polled.returned (h : Polled Q s rd rd') (hmoves : s.MovesReader t r rd')
    (hrd' : t.readers[r]? = some rd')
    (hwrapper : t.hasWrapper r = (s.nextMessage Q rd.absReadOffset).isSome)
    (hholds : t.hasWrapper r = true) : ∃ rd', t.readers[r]? = some rd' ∧ Polled Q t rd rd' ∧
      (t.nextMessage Q rd.absReadOffset).isSome = true := by
  refine ⟨rd', hrd', h.moves hmoves, ?_⟩
  rw [hmoves.nextMessage_eq, ← hwrapper]
  exact hholds

theorem AwaitsMessage.readBuffer (h : AwaitsMessage Q r rd s) {rounds : List (List Action)}
    (hok : ReadOk Q r s rounds) (hread : MockExchange.readBuffer Q r s rounds = some u) :
    ∃ rd', u.readers[r]? = some rd' ∧ Polled Q u rd rd' ∧
      (u.nextMessage Q rd.absReadOffset).isSome = true := by
  induction rounds generalizing s with
  | nil =>
    obtain ⟨t, rd', hpoll, -, hmoves, hrd', hpolled, hwrapper⟩ := h.poll hok
    rw [readBuffer_eq, hpoll, Option.bind_some] at hread
    split at hread
    · rename_i hholds
      cases hread
      exact hpolled.returned hmoves hrd' hwrapper hholds
    · cases hread
  | cons others rounds ih =>
    obtain ⟨hpolls, hlater⟩ := hok
    obtain ⟨t, rd', hpoll, -, hmoves, hrd', hpolled, hwrapper⟩ := h.poll hpolls
    rw [readBuffer_eq, hpoll, Option.bind_some] at hread
    split at hread
    · rename_i hholds
      cases hread
      exact hpolled.returned hmoves hrd' hwrapper hholds
    · rename_i hspins
      obtain ⟨v, hexec, hrest⟩ := Option.bind_eq_some_iff.mp hread
      have hround : readRound Q r s others = some v := by
        rw [readRound, hpoll, Option.bind_some, if_neg hspins, hexec]
      exact ih (h.round hpolls hround) (hlater v hround) hrest

/-- **What `read_buffer` returns.** Whatever others do between its polls, it
returns after the first of them that finds a message, with the message and the
position that a single poll made then would have given. -/
theorem read_buffer (hreach : Reach (step Q) (ChannelRun Q) State.init s)
    (hrd : s.readers[r]? = some rd) (hpc : rd.pc = .idle) (rounds : List (List Action))
    (hok : ReadOk Q r s rounds) :
    (∀ u, readBuffer Q r s rounds = some u → ∃ rd', u.readers[r]? = some rd' ∧
      Polled Q u rd rd' ∧ (u.nextMessage Q rd.absReadOffset).isSome = true) ∧
    ∀ t, Run (readRound Q r) (fun _ _ => True) s rounds t →
      (readBuffer Q r s rounds).isSome = (t.nextMessage Q rd.absReadOffset).isSome := by
  have hstart : AwaitsMessage Q r rd s := ⟨.of_run hreach, rd, hrd, .refl hpc⟩
  refine ⟨fun u hread => hstart.readBuffer hok hread, fun t hrun => ?_⟩
  rw [← List.append_nil rounds] at hok
  obtain ⟨hhead, hlast⟩ := hstart.run hrun hok
  have hrest : readBuffer Q r s (rounds ++ []) = readBuffer Q r t [] := readBuffer_run hrun
  rw [List.append_nil] at hrest
  obtain ⟨u, rd', hpoll, -, -, -, -, hwrapper⟩ := hhead.poll hlast
  rw [hrest, readBuffer_eq, hpoll, Option.bind_some, ← hwrapper]
  split
  · rename_i hholds
    rw [hholds]
    rfl
  · rename_i hspins
    simp [hspins]

end

/-- A reader calls `read_buffer` on an empty queue. Before the message is there,
another reader joins, a claim is aborted, and that reader goes over it and
closes. -/
theorem read_buffer_waits : ∃ (s u : State) (rd rd' : Reader),
    s.readers[0]? = some rd ∧ s.writeOffset = 0 ∧ u.readers[0]? = some rd' ∧
      Polled .smallest u rd rd' ∧ rd'.received = [[8, 9]] ∧
      u.readers.map Reader.pc = [.holding 19, .closed] := by
  let b : Block := ⟨0, 19, 1, 2, [7]⟩
  let c : Block := ⟨19, 20, 2, 1, [8, 9]⟩
  let claim (b : Block) : List Action := [.reserve b.size b.data, .loadReadOffset b,
    .storeHeader b, .storeHeader b, .storeHeader b, .storeHeader b]
  let rounds : List (List Action) := [[], [.join] ++ claim b ++ [.abortBuffer b],
    [.poll 1] ++ List.replicate 6 (.releaseStep 1) ++ [.leave 1, .drain 1] ++ claim c ++
      [.writeToBuffer c]]
  have hexec : (exec (step .smallest) (ChannelRun .smallest) State.init [.join]).any (fun s =>
      s.readers[0]?.any fun rd => decide (rd.pc = .idle ∧ s.writeOffset = 0 ∧
        ReadOk .smallest 0 s rounds) && (readBuffer .smallest 0 s rounds).any fun u =>
          decide (u.readers.map Reader.pc = [.holding 19, .closed] ∧
            u.readers.map Reader.received = [[[8, 9]], []])) = true := by
    decide +kernel
  obtain ⟨s, hrun, hs⟩ := exists_run_of_exec hexec
  obtain ⟨rd, hrd, hs⟩ := (Option.any_eq_true _ _).mp hs
  rw [Bool.and_eq_true, decide_eq_true_eq] at hs
  obtain ⟨⟨hpc, hempty, hok⟩, hreturns⟩ := hs
  obtain ⟨u, hread, hu⟩ := (Option.any_eq_true _ _).mp hreturns
  obtain ⟨hpcs, hreceived⟩ := of_decide_eq_true hu
  obtain ⟨hreturned, -⟩ := read_buffer ⟨_, hrun⟩ hrd hpc rounds hok
  obtain ⟨rd', hrd', hpolled, -⟩ := hreturned u hread
  refine ⟨s, u, rd, rd', hrd, hempty, hrd', hpolled, ?_, hpcs⟩
  have hget := congrArg (·[0]?) hreceived
  simpa [hrd'] using hget

end MockExchange
