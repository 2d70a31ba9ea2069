import MockExchange.PollBuffer
import MockExchange.Subscription

/-!
# Polls of a subscription, one after the other

A poll of `ArchiveSubscription` calls its handler at most once, with the message
that `poll_buffer` found, and releases it whatever the handler returns. So `n`
polls call it with the first `n` messages that are ready, in order and each once.
-/

namespace MockExchange

open ByteMemory Tiling MessageHeader Transition ListUpdate

variable (Q : RingSize)

/-- The messages in front of `p` with nothing unsettled before them. -/
def State.ready (s : State) (p : Nat) : List Block :=
  ((s.unread p).takeWhile fun b => (s.stage b.offset).settled).filter (s.delivers Q)

/-- What a poll calls the handler with. -/
def handlerCalls (fuel r : Nat) (s : State) : List (List UInt8) :=
  ((pollBuffer Q fuel s r).bind fun s => match s.readers[r]?.map Reader.pc with
    | some (.holding hdr) => some (fragment s hdr)
    | _ => none).toList

/-- `n` polls: the calls of the handler, and the state they leave. -/
def subscriptionPolls (fuel r : Nat) (handler : List UInt8 → UInt8) :
    Nat → State → Option (List (List UInt8) × State)
  | 0, s => some ([], s)
  | n + 1, s => (subscriptionPoll Q fuel handler s r).bind fun t =>
    (subscriptionPolls fuel r handler n t).map fun (calls, u) => (handlerCalls Q fuel r s ++ calls, u)

/-- The conditions of the channel hold at the steps of `n` polls and of the
releases behind them. -/
def SubscriptionOk (fuel r : Nat) (handler : List UInt8 → UInt8) : Nat → State → Prop
  | 0, _ => True
  | n + 1, s => OpOk Q (ChannelRun Q) s (.pollBuffer r fuel) ∧
    (∀ t ∈ pollBuffer Q fuel s r, OpOk Q (ChannelRun Q) t (.releaseBuffer r)) ∧
      ∀ t ∈ subscriptionPoll Q fuel handler s r, SubscriptionOk fuel r handler n t

instance decidableSubscriptionOk (fuel r : Nat) (handler : List UInt8 → UInt8) :
    ∀ n s, Decidable (SubscriptionOk Q fuel r handler n s)
  | 0, _ => isTrue trivial
  | n + 1, s => by
    have ih := decidableSubscriptionOk fuel r handler n
    unfold SubscriptionOk
    infer_instance

/-- Reader `rd` of `s` after polls of its subscription. -/
structure PolledOn (s : State) (rd rd' : Reader) (n : Nat) : Prop where
  idle : rd'.pc = .idle
  received : rd'.received = rd.received ++ ((s.ready Q rd.absReadOffset).take n).map Block.data
  decremented : rd'.decremented = rd.decremented ++
    (slice Block.offset s.log rd.absReadOffset rd'.absReadOffset).map Block.offset
  behind : s.ready Q rd'.absReadOffset = (s.ready Q rd.absReadOffset).drop n
  staying : rd'.leaveOffset = none
  joinOffset : rd'.joinOffset = rd.joinOffset

section

variable {Q} {s t : State} {b : Block} {r fuel : Nat} {rd rd' : Reader}

/-! ### What is ready -/

/-- Skip messages are settled, so what is ready is ready behind them. -/
theorem State.ready_eq (s : State) (p : Nat) : s.ready Q p =
    (((s.unread p).dropWhile (s.passesOver Q)).takeWhile
      fun b => (s.stage b.offset).settled).filter (s.delivers Q) := by
  have hpassed : ∀ b ∈ (s.unread p).takeWhile (s.passesOver Q), s.passesOver Q b = true :=
    List.all_eq_true.mp List.all_takeWhile
  rw [State.ready]
  conv_lhs => rw [← List.takeWhile_append_dropWhile (p := s.passesOver Q) (l := s.unread p)]
  rw [List.takeWhile_append_of_pos fun b hb => (State.settled_of_passesOver (hpassed b hb)).1,
    List.filter_append]
  have hnone : ((s.unread p).takeWhile (s.passesOver Q)).filter (s.delivers Q) = [] := by
    rw [List.filter_eq_nil_iff]
    intro b hb
    simp [(State.settled_of_passesOver (hpassed b hb)).2]
  rw [hnone, List.nil_append]

theorem State.ready_of_none {p : Nat} (hnone : s.nextMessage Q p = none) : s.ready Q p = [] := by
  rw [State.ready_eq]
  cases hrest : (s.unread p).dropWhile (s.passesOver Q) with
  | nil => rfl
  | cons b rest =>
    have hstop : s.stopsAt Q p = some b := by rw [State.stopsAt, hrest, List.head?_cons]
    have hunready : s.delivers Q b = false := by
      simpa [State.nextMessage, hstop] using hnone
    have hstops : s.passesOver Q b = false := by
      have hhead := List.head?_dropWhile_not (s.passesOver Q) (s.unread p)
      rwa [hrest] at hhead
    have hunsettled : (s.stage b.offset).settled = false := by
      simpa [State.passesOver, hunready] using hstops
    rw [List.takeWhile_cons_of_neg (by simp [hunsettled]), List.filter_nil]

/-- Where a poll leaves its reader is where it stopped. -/
theorem Polled.dropWhile_unread (h : Polled Q s rd rd') (hi : Inv Q s) :
    (s.unread rd.absReadOffset).dropWhile (s.passesOver Q) = s.unread rd'.absReadOffset := by
  have hend : rd'.absReadOffset ≤ s.writeOffset := by
    rw [h.position]
    cases hstop : s.stopsAt Q rd.absReadOffset with
    | none => exact Nat.le_refl _
    | some b =>
      have hb := (List.dropWhile_sublist _).mem (List.mem_of_mem_head? hstop)
      exact Nat.le_of_lt (hi.offset_lt (mem_slice.mp hb).1)
  have hsplit : s.passedOver Q rd.absReadOffset ++
      (s.unread rd.absReadOffset).dropWhile (s.passesOver Q) = s.unread rd.absReadOffset :=
    List.takeWhile_append_dropWhile
  have hslices : s.unread rd.absReadOffset =
      slice Block.offset s.log rd.absReadOffset rd'.absReadOffset ++
        s.unread rd'.absReadOffset := hi.tiles.slice_adjacent h.forward hend
  rw [hslices, ← h.between] at hsplit
  rw [hslices, ← h.between]
  exact List.append_cancel_left hsplit

theorem Polled.ready_eq (h : Polled Q s rd rd') (hi : Inv Q s) :
    s.ready Q rd.absReadOffset = s.ready Q rd'.absReadOffset := by
  rw [State.ready_eq, h.dropWhile_unread hi]
  rfl

theorem Polled.ready_cons (h : Polled Q s rd rd') (hi : Inv Q s)
    (hnext : s.nextMessage Q rd.absReadOffset = some b) :
    b ∈ s.log ∧ rd'.absReadOffset = b.offset ∧
      s.ready Q rd.absReadOffset = b :: s.ready Q b.finish := by
  obtain ⟨hstop, hdelivers⟩ := Option.filter_eq_some_iff.mp hnext
  have hb := (mem_slice.mp ((List.dropWhile_sublist _).mem (List.mem_of_mem_head? hstop))).1
  have hpos : rd'.absReadOffset = b.offset := by rw [h.position, hstop]; rfl
  refine ⟨hb, hpos, ?_⟩
  rw [h.ready_eq hi, hpos, State.ready, hi.unread_cons hb,
    List.takeWhile_cons_of_pos (by simpa using State.settled_of_delivers hdelivers),
    List.filter_cons_of_pos hdelivers]
  rfl

/-! ### A poll and its release -/

theorem State.MovesReader.ready_eq (h : s.MovesReader t r rd') (p : Nat) :
    t.ready Q p = s.ready Q p := by
  rw [State.ready, State.ready, h.unread_eq, h.delivers_eq, h.stage]

theorem ChannelInv.callRelease (hi : ChannelInv Q s) (hrd : s.readers[r]? = some rd)
    {hdr : Nat} (hpc : rd.pc = .holding hdr) :
    ChannelInv Q (MockExchange.callRelease s r rd hdr) := by
  have hholds : ∀ rd' ∈ s.readers[r]?, rd'.pc ≠ .idle := by
    intro rd' hrd'
    rw [hrd, Option.mem_some_iff] at hrd'
    simp [← hrd', hpc]
  have hok : ChannelRun Q s (.callRelease r) :=
    ⟨fun rd' hrd' hidle => absurd hidle (hholds rd' hrd'), hholds⟩
  exact hi.step hok (by simp [MockExchange.step, hrd, hpc])

/-- The release behind the handler. -/
theorem ChannelInv.released (hi : ChannelInv Q s) (hrd : s.readers[r]? = some rd)
    {hdr : Nat} (hpc : rd.pc = .holding hdr) (hstay : rd.leaveOffset = none)
    (howns : Owns Q s rd hdr b) (hok : OpOk Q (ChannelRun Q) s (.releaseBuffer r)) :
    ∃ rd', ChannelInv Q (releaseBuffer Q r (some hdr) s) ∧
      s.MovesReader (releaseBuffer Q r (some hdr) s) r rd' ∧ rd.MovedPast rd' b := by
  let called : Reader := { rd with pc := .releaseCalled hdr }
  have hmoves : s.MovesReader (MockExchange.callRelease s r rd hdr) r called := ⟨rfl, rfl, rfl, rfl⟩
  have hcalled := hi.callRelease hrd hpc
  have howns' : Owns Q (MockExchange.callRelease s r rd hdr) called hdr b :=
    ⟨howns.mem_log, howns.hdr_eq, howns.position, howns.settled, howns.pending⟩
  obtain ⟨rd', hmoves', hpast⟩ :=
    hcalled.inv.finishRelease_moves (hmoves.getElem? hrd) rfl hstay howns'
  have hrelease : releaseBuffer Q r (some hdr) s =
      MockExchange.finishRelease Q (MockExchange.callRelease s r rd hdr) r := by
    simp only [releaseBuffer, hrd]
  rw [hrelease]
  exact ⟨rd', hcalled.finishRelease (hok rd hrd hdr hpc), hmoves.trans hmoves', hpast.idle,
    hpast.staying, hpast.joinOffset, hpast.position, hpast.received, hpast.decremented⟩

/-- A poll calls its handler with the next message, if there is one, and leaves
its reader behind it. -/
theorem ChannelInv.subscriptionPoll (hi : ChannelInv Q s) (hrd : s.readers[r]? = some rd)
    (hpc : rd.pc = .idle) (hfuel : s.log.length < fuel)
    (hpolls : OpOk Q (ChannelRun Q) s (.pollBuffer r fuel))
    (hreleases : ∀ t ∈ MockExchange.pollBuffer Q fuel s r,
      OpOk Q (ChannelRun Q) t (.releaseBuffer r))
    (handler : List UInt8 → UInt8) :
    ∃ t rd', MockExchange.subscriptionPoll Q fuel handler s r = some t ∧ ChannelInv Q t ∧
      s.MovesReader t r rd' ∧ rd.absReadOffset ≤ rd'.absReadOffset ∧
      PolledOn Q s rd rd' 1 ∧
      handlerCalls Q fuel r s = ((s.ready Q rd.absReadOffset).take 1).map Block.data := by
  have hcalls := s.passedOver_length_le (Q := Q) rd.absReadOffset
  obtain ⟨t, rd₁, hpoll, ht, hmoves, hpolled⟩ :=
    hi.pollBuffer hrd hpc hpolls (Nat.lt_of_le_of_lt hcalls hfuel)
  have hrd₁ := hmoves.getElem? hrd
  have hmem₁ := List.mem_of_getElem? hrd₁
  cases hnext : s.nextMessage Q rd.absReadOffset with
  | none =>
    have hidle : rd₁.pc = .idle := by rw [hpolled.pc, hnext]; rfl
    have hready : s.ready Q rd.absReadOffset = [] := State.ready_of_none hnext
    refine ⟨t, rd₁, ?_, ht, hmoves, hpolled.forward,
      ⟨hidle, ?_, ?_, ?_, hpolled.staying, hpolled.joinOffset⟩, ?_⟩
    · simp [MockExchange.subscriptionPoll, hpoll, hrd₁, hidle]
    · rw [hpolled.received, hnext, hready]
      rfl
    · rw [hpolled.decremented, hpolled.between]
    · rw [← hpolled.ready_eq hi.inv, hready]
      rfl
    · simp [handlerCalls, hpoll, hrd₁, hidle, hready]
  | some b =>
    obtain ⟨hb, hpos, hready⟩ := hpolled.ready_cons hi.inv hnext
    have hdelivers := (Option.filter_eq_some_iff.mp hnext).2
    have hholding : rd₁.pc = .holding (b.hdr Q) := by rw [hpolled.pc, hnext]; rfl
    have howns : Owns Q t rd₁ (b.hdr Q) b := by
      obtain ⟨c, howns⟩ := (ht.inv.reader rd₁ hmem₁).owns _ (Or.inl hholding)
      have hb' : b ∈ t.log := by rw [hmoves.log]; exact hb
      obtain rfl := ht.inv.eq_of_offset_eq hb' howns.mem_log (hpos.symm.trans howns.position)
      exact howns
    have hfragment : fragment t (b.hdr Q) = b.data := by
      apply ht.delivered.payload_eq ht.inv hmem₁ howns
      rw [hmoves.delivers_eq]
      exact hdelivers
    obtain ⟨rd₂, hu, hmoves', hpast⟩ :=
      ht.released hrd₁ hholding hpolled.staying howns (hreleases t hpoll)
    have hlen := (hi.inv.shape b hb).length_ge
    have hforward : rd.absReadOffset ≤ b.offset := by
      rw [← hpos]
      exact hpolled.forward
    have hslice : slice Block.offset s.log rd.absReadOffset b.finish =
        slice Block.offset s.log rd.absReadOffset b.offset ++ [b] :=
      hi.inv.tiles.slice_end hb hforward
    refine ⟨_, rd₂, subscriptionPoll_eq hpoll ⟨rd₁, hrd₁, hholding⟩ handler, hu,
      hmoves.trans hmoves', ?_, ⟨hpast.idle, ?_, ?_, ?_, hpast.staying,
        hpast.joinOffset.trans hpolled.joinOffset⟩, ?_⟩
    · rw [hpast.position, Block.finish]
      omega
    · rw [hpast.received, hpolled.received, hnext, hready]
      rfl
    · rw [hpast.decremented, hpolled.decremented, hpolled.between, hpast.position, hpos,
        hslice, List.map_append, List.append_assoc]
      rfl
    · rw [hpast.position, hready]
      rfl
    · simp [handlerCalls, hpoll, hrd₁, hholding, hfragment, hready]

theorem ChannelInv.subscriptionPolls (hi : ChannelInv Q s) (hrd : s.readers[r]? = some rd)
    (hpc : rd.pc = .idle) (hfuel : s.log.length < fuel) {handler : List UInt8 → UInt8} {n : Nat}
    (hok : SubscriptionOk Q fuel r handler n s) :
    ∃ t rd', MockExchange.subscriptionPolls Q fuel r handler n s =
        some (((s.ready Q rd.absReadOffset).take n).map Block.data, t) ∧
      s.MovesReader t r rd' ∧ rd.absReadOffset ≤ rd'.absReadOffset ∧
      PolledOn Q s rd rd' n := by
  induction n generalizing s rd with
  | zero =>
    have hstay := (hi.inv.reader rd (List.mem_of_getElem? hrd)).staying (Or.inl hpc)
    exact ⟨s, rd, rfl, .refl hrd, Nat.le_refl _, hpc, by simp, by simp, rfl, hstay, rfl⟩
  | succ n ih =>
    obtain ⟨hpolls, hreleases, hlater⟩ := hok
    obtain ⟨t, rd₁, hpoll, ht, hmoves, hforward, hone, hcalls⟩ :=
      hi.subscriptionPoll hrd hpc hfuel hpolls hreleases handler
    obtain ⟨u, rd', hrun, hmoves', hforward', hrest⟩ :=
      ih ht (hmoves.getElem? hrd) hone.idle (by rw [hmoves.log]; exact hfuel) (hlater t hpoll)
    have htake : (s.ready Q rd.absReadOffset).take (n + 1) =
        (s.ready Q rd.absReadOffset).take 1 ++ (t.ready Q rd₁.absReadOffset).take n := by
      rw [hmoves.ready_eq, hone.behind, Nat.add_comm n 1, List.take_add]
    refine ⟨u, rd', ?_, hmoves.trans hmoves', hforward.trans hforward', hrest.idle, ?_, ?_, ?_,
      hrest.staying, hrest.joinOffset.trans hone.joinOffset⟩
    · simp only [MockExchange.subscriptionPolls, hpoll, Option.bind_some, hrun, Option.map_some,
        hcalls, htake, List.map_append]
    · rw [hrest.received, hone.received, htake, List.map_append, List.append_assoc]
    · rw [hrest.decremented, hone.decremented, hmoves.log, List.append_assoc, ← List.map_append,
        ← hi.inv.tiles.slice_adjacent hforward hforward']
    · have hbehind := hrest.behind
      rw [hmoves.ready_eq, hmoves.ready_eq, hone.behind, List.drop_drop] at hbehind
      rw [hbehind, Nat.add_comm]

/-- **Polls of a subscription deliver in order, whatever the handler returns.**
`n` of them call it with the first `n` ready messages and count every block that
the reader passed down once. -/
theorem subscription_polls (hreach : Reach (step Q) (ChannelRun Q) State.init s)
    (hrd : s.readers[r]? = some rd) (hpc : rd.pc = .idle) (hfuel : s.log.length < fuel)
    (handler : List UInt8 → UInt8) (n : Nat) (hok : SubscriptionOk Q fuel r handler n s) :
    ∃ t rd', subscriptionPolls Q fuel r handler n s =
        some (((s.ready Q rd.absReadOffset).take n).map Block.data, t) ∧
      s.MovesReader t r rd' ∧ PolledOn Q s rd rd' n := by
  obtain ⟨t, rd', hpolls, hmoves, -, hpolled⟩ :=
    (ChannelInv.of_run hreach).subscriptionPolls hrd hpc hfuel hok
  exact ⟨t, rd', hpolls, hmoves, hpolled⟩

end

/-- Two messages of different lengths are ready with an aborted claim between
them, a third is claimed only; the handler returns `ABORT` for the first. -/
theorem subscription_polls_aborted : ∃ (s t : State) (rd rd' : Reader),
    s.readers[0]? = some rd ∧ subscriptionPolls .of512 5 0 (fun message =>
      if message = [7] then FragmentAction.abort.toByte else FragmentAction.continue.toByte) 3 s =
        some ([[7], [8, 9]], t) ∧
      PolledOn .of512 s rd rd' 3 ∧ rd'.decremented = [0, 19, 38] := by
  let handler : List UInt8 → UInt8 := fun message =>
    if message = [7] then FragmentAction.abort.toByte else FragmentAction.continue.toByte
  let b : Block := ⟨0, 19, 1, 1, [7]⟩
  let c : Block := ⟨19, 19, 1, 1, [6]⟩
  let d : Block := ⟨38, 20, 2, 1, [8, 9]⟩
  let claim (b : Block) : List Action := [.reserve b.size b.data, .loadReadOffset b,
    .storeHeader b, .storeHeader b, .storeHeader b, .storeHeader b]
  let labels : List Action := [.join] ++ claim b ++ [.writeToBuffer b] ++ claim c ++
    [.abortBuffer c] ++ claim d ++ [.writeToBuffer d, .reserve 1 [5]]
  have hexec : (exec (step .of512) (ChannelRun .of512) State.init labels).any (fun s =>
      s.readers[0]?.any fun rd => decide (rd.pc = .idle ∧ s.log.length < 5 ∧
        SubscriptionOk .of512 5 0 handler 3 s ∧
        ((s.ready .of512 rd.absReadOffset).take 3).map Block.data = [[7], [8, 9]] ∧
        (subscriptionPolls .of512 5 0 handler 3 s).map (fun (_, t) =>
          t.readers.map Reader.decremented) = some [[0, 19, 38]])) = true := by
    decide +kernel
  obtain ⟨s, hrun, hs⟩ := exists_run_of_exec hexec
  obtain ⟨rd, hrd, hs⟩ := (Option.any_eq_true _ _).mp hs
  obtain ⟨hpc, hfuel, hok, hready, hdecremented⟩ := of_decide_eq_true hs
  obtain ⟨t, rd', hpolls, hmoves, hpolled⟩ :=
    subscription_polls ⟨labels, hrun⟩ hrd hpc hfuel handler 3 hok
  rw [hready] at hpolls
  refine ⟨s, t, rd, rd', hrd, hpolls, hpolled, ?_⟩
  have hget := hmoves.getElem? hrd
  rw [hpolls, Option.map_some, Option.some.injEq] at hdecremented
  have hlast := congrArg (·[0]?) hdecremented
  simpa [hget] using hlast

end MockExchange
