import MockExchange.CompleteDelivery
import MockExchange.SplitPoll
import MockExchange.Lib.Broadcast

/-!
# The queue is a broadcast log

Seen from its callers the queue is the abstract log of `Broadcast`: a reservation
takes a place, `commit_buffer` publishes the message in it, an aborted claim and
a skip message are dropped, and a reader is a subscriber whose cursor is the
number of blocks behind it. `State.broadcast` forgets the ring, the packed word,
the header stores, the reader counts and `read_offset`; every atomic step is then
a step of the log or none, and the bytes a poll reads out of the ring are the
message of the log. Payloads may have any sizes, claims may be aborted, and
readers may join and leave at any time.
-/

namespace MockExchange

open ByteMemory Tiling MessageHeader Transition ListUpdate

variable (Q : RingSize)

/-! ### The abstraction -/

/-- The message a block was reserved for. A skip message carries none. -/
def Block.message (b : Block) : Option (List UInt8) := if b.isPadding Q then none else some b.data

/-- The place of a block in the log. -/
def State.entry (s : State) (b : Block) : Broadcast.Entry (List UInt8) :=
  match s.stage b.offset with
  | .committed => if b.isPadding Q then .dropped none else .published b.data
  | .aborted => .dropped (b.message Q)
  | _ => .pending (b.message Q)

/-- Up to where a reader was served. What a closing reader drains it is not
served any more. -/
def Reader.servedTo (rd : Reader) : Nat :=
  if rd.active then rd.cutoff else (rd.closeStart.map Prod.fst).getD 0

def State.subscriber (s : State) (rd : Reader) : Broadcast.Subscriber (List UInt8) where
  joined := rank Block.offset s.log rd.joinOffset
  cursor := rank Block.offset s.log rd.servedTo
  active := rd.active
  delivered := rd.received

def State.broadcast (s : State) : Broadcast.Log (List UInt8) where
  entries := s.log.map (s.entry Q)
  subscribers := s.readers.map s.subscriber

/-- The payload bytes in the ring in front of reader `r`. -/
def State.deliveredTo (s : State) (r : Nat) (rd : Reader) :
    List (Broadcast.Event (List UInt8)) :=
  let hdr := rd.absReadOffset % Q.bytes
  [.delivered r (payload s.mem hdr (messageSize s.mem hdr))]

/-- What the callers see of a step: a constructor that joins, a claim of a
message, the data of a commit, the bytes of a wrapper that is handed out, and a
close. -/
def State.emit (s : State) : Action → List (Broadcast.Event (List UInt8))
  | .join => [.subscribed]
  | .reserve size data => ((newBlock Q s size data).message Q).toList.map .claimed
  | .writeToBuffer b => [.published b.data]
  | .poll r => match s.readers[r]? with
    | none => []
    | some rd => match pollOutcome Q s.mem rd.absReadOffset with
      | .wrapper => s.deliveredTo Q r rd
      | _ => []
  | .loadSizeAndType r => match s.readers[r]? with
    | none => []
    | some rd =>
      if type s.mem (rd.absReadOffset % Q.bytes) = MessageType.padding.toNat then []
      else s.deliveredTo Q r rd
  | .leave r => [.unsubscribed r]
  | _ => []

/-- The log can go from the image of `s` to that of `t`, showing `events`. -/
abbrev State.Follows (s t : State) (events : List (Broadcast.Event (List UInt8))) : Prop :=
  Emits Broadcast.step (fun _ _ => True) Broadcast.emit (s.broadcast Q) events (t.broadcast Q)

section

variable {Q} {s t : State} {b : Block} {r : Nat} {rd rd' : Reader}

/-! ### Places and cursors -/

theorem Inv.entry_at (h : Inv Q s) (hb : b ∈ s.log) :
    (s.broadcast Q).entries[rank Block.offset s.log b.offset]? = some (s.entry Q b) := by
  rw [State.broadcast, List.getElem?_map, h.tiles.getElem?_rank hb, Option.map_some]

theorem State.entry_congr (hstage : t.stage b.offset = s.stage b.offset) :
    t.entry Q b = s.entry Q b := by
  rw [State.entry, State.entry, hstage]

theorem State.entry_of_unsettled (hst : (s.stage b.offset).settled = false) :
    s.entry Q b = .pending (b.message Q) := by
  rw [State.entry]
  cases hstage : s.stage b.offset with
  | committed => simp [hstage, Stage.settled] at hst
  | aborted => simp [hstage, Stage.settled] at hst
  | _ => rfl

/-- Behind the start of a block the cursor has passed one place more. -/
theorem Inv.rank_succ (h : Inv Q s) (hb : b ∈ s.log) {p : Nat} (hlo : b.offset < p)
    (hhi : p ≤ b.finish) :
    rank Block.offset s.log p = rank Block.offset s.log b.offset + 1 :=
  h.tiles.rank_succ hb hlo hhi

theorem Reader.servedTo_of_active (hstay : rd.leaveOffset = none) : rd.servedTo = rd.cutoff := by
  simp [servedTo, active, hstay]

theorem Reader.servedTo_congr {e : Nat} (hleave : rd.leaveOffset = some e)
    (hleave' : rd'.leaveOffset = rd.leaveOffset) (hclose : rd'.closeStart = rd.closeStart) :
    rd'.servedTo = rd.servedTo := by
  simp [servedTo, active, hleave', hleave, hclose]

/-- A reader that has left was served up to where its close started. -/
theorem Inv.servedTo_le (h : Inv Q s) (hrd : rd ∈ s.readers) : rd.servedTo ≤ s.writeOffset := by
  have hr := h.reader rd hrd
  have hpos := hr.boundary.le h.tiles
  unfold Reader.servedTo
  split
  · exact h.cutoff_le hrd
  · cases hclose : rd.closeStart with
    | none => exact Nat.zero_le _
    | some start =>
      obtain ⟨a, before⟩ := start
      have hstart := (hr.close a before hclose).2.1
      simp only [Option.map_some, Option.getD_some]
      omega

theorem Inv.joinOffset_le (h : Inv Q s) (hrd : rd ∈ s.readers) : rd.joinOffset ≤ s.writeOffset := by
  have hr := h.reader rd hrd
  have hpos := hr.boundary.le h.tiles
  have hjoin := hr.join_le
  omega

/-! ### Steps the log does not take -/

theorem State.Follows.same (hlog : t.log = s.log) (hreaders : t.readers = s.readers)
    (hentry : ∀ b ∈ s.log, t.entry Q b = s.entry Q b) : s.Follows Q t [] := by
  have hsame : t.broadcast Q = s.broadcast Q := by
    unfold State.broadcast State.subscriber
    rw [hlog, hreaders, List.map_congr_left hentry]
  rw [State.Follows, hsame]
  exact .nil

/-- A writer between two of its stores. -/
theorem Inv.follows_write (h : Inv Q s) (hb : b ∈ s.log)
    (hunsettled : (s.stage b.offset).settled = false) {m : Memory} {stage' : Stage}
    (hunsettled' : stage'.settled = false) :
    s.Follows Q { s with mem := m, stage := Function.update s.stage b.offset stage' } [] := by
  refine .same rfl rfl ?_
  intro c hc
  by_cases hne : c.offset = b.offset
  · obtain rfl := h.eq_of_offset_eq hc hb hne
    rw [State.entry_of_unsettled hunsettled,
      State.entry_of_unsettled (by simpa [Function.update_self] using hunsettled')]
  · exact State.entry_congr (Function.update_of_ne hne _ _)

theorem State.broadcast_setReader (hlog : t.log = s.log) (hstage : t.stage = s.stage)
    (hreaders : t.readers = s.readers.set r rd') :
    t.broadcast Q = (s.broadcast Q).setSubscriber r (s.subscriber rd') := by
  unfold State.broadcast Broadcast.Log.setSubscriber
  have hentry : ∀ b ∈ s.log, t.entry Q b = s.entry Q b := fun b _ =>
    State.entry_congr (by rw [hstage])
  have hsubscriber : t.subscriber = s.subscriber := by
    unfold State.subscriber
    rw [hlog]
  rw [hlog, hreaders, List.map_congr_left hentry, hsubscriber, List.map_set]

/-- A reader that moved on inside its program. -/
theorem State.Follows.setReader (hrd : s.readers[r]? = some rd) (hlog : t.log = s.log)
    (hstage : t.stage = s.stage) (hreaders : t.readers = s.readers.set r rd')
    (hsame : s.subscriber rd' = s.subscriber rd) : s.Follows Q t [] := by
  have hbroadcast : t.broadcast Q = s.broadcast Q := by
    rw [State.broadcast_setReader hlog hstage hreaders, hsame]
    unfold Broadcast.Log.setSubscriber State.broadcast
    rw [← List.map_set, map_set_of_eq s.subscriber hrd rfl]
  rw [State.Follows, hbroadcast]
  exact .nil

theorem State.subscriber_congr (hjoin : rd'.joinOffset = rd.joinOffset)
    (hserved : rank Block.offset s.log rd'.servedTo = rank Block.offset s.log rd.servedTo)
    (hleave : rd'.leaveOffset = rd.leaveOffset) (hreceived : rd'.received = rd.received) :
    s.subscriber rd' = s.subscriber rd := by
  unfold State.subscriber Reader.active
  rw [hjoin, hserved, hleave, hreceived]

/-- A pc that serves the reader up to the same place. -/
theorem State.subscriber_setPc {pc : ReaderPc}
    (hcut : ({ rd with pc := pc } : Reader).cutoff = rd.cutoff) :
    s.subscriber { rd with pc := pc } = s.subscriber rd := by
  refine State.subscriber_congr rfl ?_ rfl rfl
  rw [Reader.servedTo, hcut]
  rfl

/-! ### Settling a block -/

theorem Inv.broadcast_setStage (h : Inv Q s) (hb : b ∈ s.log) {m : Memory} {stage' : Stage}
    {asserts : Bool} (t : State) (ht : t = { s with
      mem := m, stage := Function.update s.stage b.offset stage', assertsHold := asserts }) :
    t.broadcast Q =
      (s.broadcast Q).setEntry (rank Block.offset s.log b.offset) (t.entry Q b) := by
  subst ht
  unfold Broadcast.Log.setEntry State.broadcast
  congr 1
  refine map_eq_set (h.tiles.getElem?_rank hb) ?_
  intro j c hc hne
  apply State.entry_congr
  apply Function.update_of_ne
  intro heq
  have hcb := h.eq_of_offset_eq (List.mem_of_getElem? hc) hb heq
  subst hcb
  have hnodup : (s.log.map Block.offset)[j]? =
      (s.log.map Block.offset)[rank Block.offset s.log c.offset]? := by
    rw [List.getElem?_map, List.getElem?_map, hc, h.tiles.getElem?_rank hb]
  exact hne ((List.getElem?_inj (by
    rw [List.length_map]
    exact lt_of_getElem? hc) h.tiles.nodup).mp hnodup)

theorem Inv.follows_drop (h : Inv Q s) (hb : b ∈ s.log)
    (hunsettled : (s.stage b.offset).settled = false) {m : Memory} {stage' : Stage}
    {asserts : Bool} {x : Option (List UInt8)}
    (hdropped : ∀ t : State, t.stage b.offset = stage' → t.entry Q b = .dropped x)
    (hx : b.message Q = x) :
    s.Follows Q { s with
      mem := m, stage := Function.update s.stage b.offset stage', assertsHold := asserts } [] := by
  have hplace := h.entry_at hb
  rw [State.entry_of_unsettled hunsettled, hx] at hplace
  have hstep : Broadcast.step (s.broadcast Q) (.drop (rank Block.offset s.log b.offset)) =
      some ((s.broadcast Q).setEntry (rank Block.offset s.log b.offset) (.dropped x)) := by
    simp only [Broadcast.step, hplace]
  rw [State.Follows, h.broadcast_setStage hb _ rfl, hdropped _ (Function.update_self _ _ _)]
  exact Broadcast.emits_step hstep

theorem Inv.follows_publish (h : Inv Q s) (hb : b ∈ s.log)
    (hunsettled : (s.stage b.offset).settled = false) (hpad : b.isPadding Q = false) {m : Memory}
    {asserts : Bool} :
    s.Follows Q { s with
      mem := m, stage := Function.update s.stage b.offset .committed, assertsHold := asserts }
      [.published b.data] := by
  have hmessage : b.message Q = some b.data := by simp [Block.message, hpad]
  have hplace := h.entry_at hb
  rw [State.entry_of_unsettled hunsettled, hmessage] at hplace
  have hstep : Broadcast.step (s.broadcast Q) (.publish (rank Block.offset s.log b.offset)) =
      some ((s.broadcast Q).setEntry (rank Block.offset s.log b.offset) (.published b.data)) := by
    simp only [Broadcast.step, hplace]
  have hemit : Broadcast.emit (s.broadcast Q) (.publish (rank Block.offset s.log b.offset)) =
      [.published b.data] := by
    simp only [Broadcast.emit, hplace]
  rw [State.Follows, h.broadcast_setStage hb _ rfl, ← hemit]
  have hentry : ∀ t : State, t.stage b.offset = .committed → t.entry Q b = .published b.data := by
    intro t ht
    simp [State.entry, ht, hpad]
  rw [hentry _ (Function.update_self _ _ _)]
  exact Broadcast.emits_step hstep

/-! ### A reader goes past a block -/

/-- The subscriber of a reader at a block is about to look at that block's place. -/
theorem Inv.next_of_owns (h : Inv Q s) (hstay : rd.leaveOffset = none)
    (hcut : rd.cutoff = rd.absReadOffset) {hdr : Nat} (howns : Owns Q s rd hdr b) :
    (s.broadcast Q).next (s.subscriber rd) = some (s.entry Q b) := by
  rw [Broadcast.Log.next_eq_some]
  refine ⟨by simp [State.subscriber, Reader.active, hstay], ?_⟩
  have hcursor : (s.subscriber rd).cursor = rank Block.offset s.log b.offset := by
    change rank Block.offset s.log rd.servedTo = _
    rw [Reader.servedTo_of_active hstay, hcut, howns.position]
  rw [hcursor]
  exact h.entry_at howns.mem_log

theorem Inv.cursor_past (h : Inv Q s) (hstay : rd.leaveOffset = none)
    (hcut : rd.cutoff = rd.absReadOffset) {hdr : Nat} (howns : Owns Q s rd hdr b)
    (rd' : Reader) (hstay' : rd'.leaveOffset = none) (hcut' : rd'.cutoff = rd.absReadOffset + 1) :
    rank Block.offset s.log rd'.servedTo = rank Block.offset s.log rd.servedTo + 1 := by
  have hlen := (h.shape b howns.mem_log).length_ge
  rw [Reader.servedTo_of_active hstay', Reader.servedTo_of_active hstay, hcut, hcut',
    howns.position]
  exact h.rank_succ howns.mem_log (by omega) (by simp only [Block.finish]; omega)

/-- A block without a message for the readers is skipped. -/
theorem Inv.follows_skip (h : Inv Q s) (hrd : s.readers[r]? = some rd)
    (hstay : rd.leaveOffset = none) (hcut : rd.cutoff = rd.absReadOffset) {hdr hdr' : Nat}
    (howns : Owns Q s rd hdr b) {x : Option (List UInt8)} (hentry : s.entry Q b = .dropped x)
    (hlog : t.log = s.log) (hstage : t.stage = s.stage)
    (hreaders : t.readers = s.readers.set r { rd with pc := .releaseCalled hdr' }) :
    s.Follows Q t [] := by
  have hnext := h.next_of_owns hstay hcut howns
  rw [hentry] at hnext
  have hsub : (s.broadcast Q).subscribers[r]? = some (s.subscriber rd) := by
    rw [State.broadcast, List.getElem?_map, hrd, Option.map_some]
  have hpast : s.subscriber { rd with pc := .releaseCalled hdr' } =
      { s.subscriber rd with cursor := (s.subscriber rd).cursor + 1 } := by
    have hcursor := h.cursor_past hstay hcut howns
      { rd with pc := .releaseCalled hdr' } hstay rfl
    unfold State.subscriber
    rw [hcursor]
    rfl
  have hstep : Broadcast.step (s.broadcast Q) (.skip r) = some (t.broadcast Q) := by
    rw [State.broadcast_setReader hlog hstage hreaders, hpast]
    simp only [Broadcast.step, hsub, Option.bind_some, hnext]
  exact Broadcast.emits_step hstep

/-- A wrapper that is handed out delivers the message of its place. -/
theorem Inv.follows_deliver (h : Inv Q s) (hi : Delivered Q s) (hrd : s.readers[r]? = some rd)
    (hstay : rd.leaveOffset = none) (hcut : rd.cutoff = rd.absReadOffset)
    (howns : Owns Q s rd (rd.absReadOffset % Q.bytes) b) (hst : s.stage b.offset = .committed)
    (hpad : b.isPadding Q = false) {asserts : Bool} :
    s.Follows Q
      (MockExchange.handOut { s with assertsHold := asserts } r rd (rd.absReadOffset % Q.bytes))
      (s.deliveredTo Q r rd) := by
  have hpayload := hi.payload_eq h (List.mem_of_getElem? hrd) howns
    (State.delivers_of_committed hst hpad)
  have hentry : s.entry Q b = .published b.data := by simp [State.entry, hst, hpad]
  have hnext := h.next_of_owns hstay hcut howns
  rw [hentry] at hnext
  have hsub : (s.broadcast Q).subscribers[r]? = some (s.subscriber rd) := by
    rw [State.broadcast, List.getElem?_map, hrd, Option.map_some]
  let held : Reader := { rd with
    pc := .holding (rd.absReadOffset % Q.bytes), received := rd.received ++ [b.data] }
  have hheld : s.subscriber held = { s.subscriber rd with
      cursor := (s.subscriber rd).cursor + 1
      delivered := (s.subscriber rd).delivered ++ [b.data] } := by
    have hcursor := h.cursor_past hstay hcut howns held hstay rfl
    unfold State.subscriber
    rw [hcursor]
    rfl
  have hbroadcast : (MockExchange.handOut { s with assertsHold := asserts } r rd
      (rd.absReadOffset % Q.bytes)).broadcast Q = (s.broadcast Q).setSubscriber r
        (s.subscriber held) :=
    State.broadcast_setReader rfl rfl (by simp only [held, ← hpayload]; rfl)
  have hstep : Broadcast.step (s.broadcast Q) (.deliver r) =
      some ((s.broadcast Q).setSubscriber r (s.subscriber held)) := by
    rw [hheld]
    simp only [Broadcast.step, hsub, Option.bind_some, hnext]
  have hemit : Broadcast.emit (s.broadcast Q) (.deliver r) = s.deliveredTo Q r rd := by
    simp only [Broadcast.emit, hsub, Option.bind_some, hnext, State.deliveredTo, hpayload]
  rw [State.Follows, hbroadcast, ← hemit]
  exact Broadcast.emits_step hstep

/-! ### Every step -/

theorem Inv.follows_join (h : Inv Q s) : s.Follows Q (MockExchange.join s) [.subscribed] := by
  have hsubscriber : s.subscriber (.joinedAt s.writeOffset) =
      ⟨(s.broadcast Q).entries.length, (s.broadcast Q).entries.length, true, []⟩ := by
    have hend : rank Block.offset s.log s.writeOffset = (s.broadcast Q).entries.length := by
      rw [h.tiles.rank_end, State.broadcast, List.length_map]
    rw [← hend]
    rfl
  have hstep : Broadcast.step (s.broadcast Q) .subscribe =
      some ((MockExchange.join s).broadcast Q) := by
    simp only [Broadcast.step, ← hsubscriber]
    congr 1
    refine Broadcast.Log.ext rfl ?_
    change _ = (s.readers ++ [Reader.joinedAt s.writeOffset]).map s.subscriber
    rw [List.map_append]
    rfl
  exact Broadcast.emits_step hstep

theorem Inv.follows_reserve (h : Inv Q s) {size : Nat} {data : List UInt8} :
    s.Follows Q (MockExchange.reserve Q s size data) (s.emit Q (.reserve size data)) := by
  have hnew : (newBlock Q s size data).offset = s.writeOffset := rfl
  have hentry : ∀ b ∈ s.log, (MockExchange.reserve Q s size data).entry Q b = s.entry Q b := by
    intro b hb
    apply State.entry_congr
    exact Function.update_of_ne (Nat.ne_of_lt (h.offset_lt hb)) _ _
  have hlast : (MockExchange.reserve Q s size data).entry Q (newBlock Q s size data) =
      .pending ((newBlock Q s size data).message Q) := by
    apply State.entry_of_unsettled
    change (Function.update s.stage (newBlock Q s size data).offset .waiting _).settled = false
    rw [Function.update_self]
    rfl
  have hsubscriber : ∀ rd ∈ s.readers,
      (MockExchange.reserve Q s size data).subscriber rd = s.subscriber rd := by
    intro rd hrd
    unfold State.subscriber
    rw [reserve_log, rank_append_of_le (by rw [hnew]; exact h.joinOffset_le hrd),
      rank_append_of_le (by rw [hnew]; exact h.servedTo_le hrd)]
  have hstep : Broadcast.step (s.broadcast Q) (.append ((newBlock Q s size data).message Q)) =
      some ((MockExchange.reserve Q s size data).broadcast Q) := by
    simp only [Broadcast.step]
    congr 1
    refine Broadcast.Log.ext ?_ ?_
    · change _ = (s.log ++ [newBlock Q s size data]).map _
      rw [List.map_append, List.map_congr_left hentry, List.map_singleton, hlast]
      rfl
    · change s.readers.map s.subscriber = s.readers.map _
      rw [List.map_congr_left hsubscriber]
  exact Broadcast.emits_step hstep

theorem Inv.follows_leave (h : Inv Q s) (hrd : s.readers[r]? = some rd) (hpc : rd.pc = .idle) :
    s.Follows Q (MockExchange.leave s r rd) [.unsubscribed r] := by
  have hstay := (h.reader rd (List.mem_of_getElem? hrd)).staying (Or.inl hpc)
  have hcut : rd.cutoff = rd.absReadOffset := by simp [Reader.cutoff, hpc]
  have hsub : (s.broadcast Q).subscribers[r]? = some (s.subscriber rd) := by
    rw [State.broadcast, List.getElem?_map, hrd, Option.map_some]
  have hactive : (s.subscriber rd).active = true := by
    simp [State.subscriber, Reader.active, hstay]
  have hleft : s.subscriber (rd.leftAt s.writeOffset) =
      { s.subscriber rd with active := false } := by
    unfold State.subscriber
    rw [Reader.servedTo_of_active hstay, hcut]
    rfl
  have hbroadcast : (MockExchange.leave s r rd).broadcast Q =
      (s.broadcast Q).setSubscriber r (s.subscriber (rd.leftAt s.writeOffset)) :=
    State.broadcast_setReader rfl rfl leave_readers
  have hstep : Broadcast.step (s.broadcast Q) (.unsubscribe r) =
      some ((MockExchange.leave s r rd).broadcast Q) := by
    rw [hbroadcast, hleft]
    simp only [Broadcast.step, hsub, Option.bind_some, hactive, if_true]
  exact Broadcast.emits_step hstep

theorem Inv.follows_fetchSub (h : Inv Q s) (hrd : s.readers[r]? = some rd) {hdr : Nat}
    (hpc : rd.pc = .releaseCalled hdr) (howns : Owns Q s rd hdr b) :
    s.Follows Q (MockExchange.fetchSub Q s r rd hdr) [] := by
  have hlen := (h.shape b howns.mem_log).length_ge
  have hcut : rd.cutoff = rd.absReadOffset + 1 := by simp [Reader.cutoff, hpc]
  rw [h.fetchSub_eq hrd howns]
  generalize decide (s.pendingCount b.offset ≤ 1) = last
  refine .setReader hrd rfl rfl rfl (State.subscriber_congr rfl ?_ rfl rfl)
  cases hleave : rd.leaveOffset with
  | some e =>
    have hserved : (rd.passed Q b last).servedTo = rd.servedTo :=
      Reader.servedTo_congr hleave rfl rfl
    rw [hserved]
  | none =>
    have hcut' : (rd.passed Q b last).cutoff = b.finish := by
      simp only [Reader.cutoff, Reader.passed, Reader.afterRelease]
      split <;> rename_i heq <;> split at heq <;> try split at heq
      all_goals first | rfl | cases heq
    have hstay' : (rd.passed Q b last).leaveOffset = none := hleave
    have hserved : (rd.passed Q b last).servedTo = b.finish := by
      rw [Reader.servedTo_of_active hstay', hcut']
    have hfinish := h.rank_succ howns.mem_log (p := b.finish)
      (by simp only [Block.finish]; omega) (Nat.le_refl _)
    have hsucc := h.rank_succ howns.mem_log (p := b.offset + 1) (by omega)
      (by simp only [Block.finish]; omega)
    rw [hserved, Reader.servedTo_of_active hleave, hcut, howns.position, hfinish, hsucc]

theorem Inv.follows_clearStep (hrd : s.readers[r]? = some rd) {hdr total : Nat}
    {step : ClearStep} (hpc : rd.pc = .clearing step hdr total) :
    s.Follows Q (MockExchange.clearStep s r rd step hdr total) [] := by
  have hcut : rd.cutoff = rd.absReadOffset := by simp [Reader.cutoff, hpc]
  cases step with
  | advance =>
    refine .setReader hrd rfl rfl rfl (State.subscriber_setPc ?_)
    rw [hcut]
    simp only [Reader.cutoff, Reader.afterRelease]
    split <;> rename_i heq <;> split at heq
    all_goals first | rfl | cases heq
  | _ => exact .setReader hrd rfl rfl rfl (State.subscriber_setPc (by rw [hcut]; rfl))

theorem Inv.follows_poll (h : Inv Q s) (hi : Delivered Q s) (hrd : s.readers[r]? = some rd)
    (hpc : rd.pc = .idle) (hsettled : s.PollsSettled Q rd) :
    s.Follows Q (MockExchange.pollHeader Q s r rd) (s.emit Q (.poll r)) := by
  have hcut : rd.cutoff = rd.absReadOffset := by simp [Reader.cutoff, hpc]
  have hmem := List.mem_of_getElem? hrd
  have hstay := (h.reader rd hmem).staying (Or.inl hpc)
  simp only [MockExchange.pollHeader, State.emit, hrd]
  cases hout : pollOutcome Q s.mem rd.absReadOffset with
  | nullopt => exact .nil
  | skipPadding =>
    obtain ⟨b, hb⟩ := h.owns_of_staying hrd (Or.inl hpc) (hsettled (by simp [hout]))
    obtain ⟨hflag, -, htype⟩ := pollOutcome_ready hout (Or.inr rfl)
    have hst := h.committed_of_flag hmem hb hflag
    have hpad := (h.isPadding_iff_type hmem hb).mp (htype.mpr rfl)
    exact h.follows_skip hrd hstay hcut hb (x := none) (by simp [State.entry, hst, hpad])
      rfl rfl rfl
  | skipAborted =>
    obtain ⟨b, hb⟩ := h.owns_of_staying hrd (Or.inl hpc) (hsettled (by simp [hout]))
    have hst := h.aborted_of_flag hmem hb (pollOutcome_aborted hout)
    exact h.follows_skip hrd hstay hcut hb (x := b.message Q) (by simp [State.entry, hst])
      rfl rfl rfl
  | wrapper =>
    obtain ⟨b, hb⟩ := h.owns_of_staying hrd (Or.inl hpc) (hsettled (by simp [hout]))
    obtain ⟨hflag, -, htype⟩ := pollOutcome_ready hout (Or.inl rfl)
    have hst := h.committed_of_flag hmem hb hflag
    have hpad : b.isPadding Q = false := by
      rw [h.isPadding_iff_type hmem hb] at htype
      simpa using htype
    exact h.follows_deliver hi hrd hstay hcut hb hst hpad

theorem Inv.follows_loadCommitFlag (h : Inv Q s) (hrd : s.readers[r]? = some rd)
    (hpc : rd.pc = .idle)
    (hsettled : commitFlag s.mem (rd.absReadOffset % Q.bytes) = CommitFlag.aborted.toByte →
      s.SettledAt rd.absReadOffset) : s.Follows Q (MockExchange.loadCommitFlag Q s r rd) [] := by
  have hcut : rd.cutoff = rd.absReadOffset := by simp [Reader.cutoff, hpc]
  have hmem := List.mem_of_getElem? hrd
  have hstay := (h.reader rd hmem).staying (Or.inl hpc)
  simp only [MockExchange.loadCommitFlag]
  split
  · exact .setReader hrd rfl rfl rfl (State.subscriber_setPc (by rw [hcut]; rfl))
  · split
    · rename_i haborted
      obtain ⟨b, hb⟩ := h.owns_of_staying hrd (Or.inl hpc) (hsettled haborted)
      have hst := h.aborted_of_flag hmem hb haborted
      exact h.follows_skip hrd hstay hcut hb (x := b.message Q) (by simp [State.entry, hst])
        rfl rfl rfl
    · exact .nil

theorem Inv.follows_loadAbsOffset (hrd : s.readers[r]? = some rd) (hpc : rd.pc = .flagLoaded) :
    s.Follows Q (MockExchange.loadAbsOffset Q s r rd) [] := by
  have hcut : rd.cutoff = rd.absReadOffset := by simp [Reader.cutoff, hpc]
  refine .setReader hrd rfl rfl rfl (State.subscriber_setPc ?_)
  rw [hcut]
  simp only [Reader.cutoff]
  split <;> rename_i heq <;> try split at heq
  all_goals first | rfl | cases heq

theorem Inv.follows_loadSizeAndType (h : Inv Q s) (hi : Delivered Q s)
    (hrd : s.readers[r]? = some rd) (hpc : rd.pc = .offsetMatched)
    (hcommitted : s.CommittedAt rd.absReadOffset) :
    s.Follows Q (MockExchange.loadSizeAndType Q s r rd) (s.emit Q (.loadSizeAndType r)) := by
  have hcut : rd.cutoff = rd.absReadOffset := by simp [Reader.cutoff, hpc]
  have hmem := List.mem_of_getElem? hrd
  have hstay := (h.reader rd hmem).staying (Or.inr (Or.inr hpc))
  obtain ⟨b, hb⟩ := h.owns_of_staying hrd (Or.inr (Or.inr hpc)) hcommitted.settledAt
  have hst : s.stage b.offset = .committed := by
    obtain ⟨-, -, -, hst⟩ := hcommitted
    rwa [hb.position] at hst
  simp only [MockExchange.loadSizeAndType, State.emit, hrd]
  split
  · rename_i htype
    have hpad := (h.isPadding_iff_type hmem hb).mp htype
    exact h.follows_skip hrd hstay hcut hb (x := none) (by simp [State.entry, hst, hpad])
      rfl rfl rfl
  · rename_i htype
    have hpad : b.isPadding Q = false := by
      rw [h.isPadding_iff_type hmem hb] at htype
      simpa using htype
    exact h.follows_deliver hi hrd hstay hcut hb hst hpad

/-- What a leaving reader drains nobody is served. -/
theorem Inv.follows_drain (hrd : s.readers[r]? = some rd) {e : Nat}
    (hleave : rd.leaveOffset = some e) : s.Follows Q (MockExchange.drain Q s r rd e) [] := by
  have hsame : ∀ pc : ReaderPc, s.subscriber { rd with pc := pc } = s.subscriber rd := by
    intro pc
    refine State.subscriber_congr rfl ?_ rfl rfl
    rw [Reader.servedTo_congr hleave]
    · rfl
    · rfl
  simp only [MockExchange.drain]
  split
  · exact .setReader hrd rfl rfl rfl (hsame _)
  · exact .setReader hrd rfl rfl rfl (hsame _)

/-- **Each atomic step of the queue is a step of the log with the same event, or
none without one.** -/
theorem Inv.follows (h : Inv Q s) (hi : Delivered Q s) {a : Action} (hok : ChannelRun Q s a)
    (htaken : Taken Q s a t) : s.Follows Q t (s.emit Q a) := by
  obtain ⟨hsound, hfirst⟩ := hok
  cases htaken with
  | join => exact h.follows_join
  | reserve => exact h.follows_reserve
  | loadReadOffset hb =>
    simp only [MockExchange.loadReadOffset]
    split
    · exact .nil
    · exact h.follows_write hb.1 (by rw [hb.2]; rfl) rfl
  | @storeHeader b hb hst =>
    simp only [MockExchange.storeHeader]
    cases hstage : s.stage b.offset with
    | admitted => exact h.follows_write hb (by rw [hstage]; rfl) rfl
    | offsetStored => exact h.follows_write hb (by rw [hstage]; rfl) rfl
    | sizeStored => exact h.follows_write hb (by rw [hstage]; rfl) rfl
    | typeStored => exact h.follows_write hb (by rw [hstage]; rfl) rfl
    | _ => exact .nil
  | @finishSkip b hb hpad =>
    refine h.follows_drop hb.1 (by rw [hb.2]; rfl) (x := none) ?_ (by simp [Block.message, hpad])
    intro t ht
    simp [State.entry, ht, hpad]
  | writeToBuffer hb hpad => exact h.follows_publish hb.1 (by rw [hb.2]; rfl) hpad
  | @abortBuffer b hb hpad =>
    refine h.follows_drop hb.1 (by rw [hb.2]; rfl) (x := b.message Q) ?_ rfl
    intro t ht
    simp [State.entry, ht]
  | poll hrd hpc => exact h.follows_poll hi hrd hpc (hsound _ hrd)
  | loadCommitFlag hrd hpc => exact h.follows_loadCommitFlag hrd hpc (hsound _ hrd)
  | loadAbsOffset hrd hpc => exact Inv.follows_loadAbsOffset hrd hpc
  | loadSizeAndType hrd hpc => exact h.follows_loadSizeAndType hi hrd hpc (hfirst _ hrd)
  | @releaseHeld r hdr rd hrd hpc =>
    refine .setReader hrd rfl rfl rfl (State.subscriber_setPc ?_)
    simp [Reader.cutoff, hpc]
  | releaseNext hrd hpc => exact absurd hpc (hfirst _ hrd)
  | fetchSub hrd hpc =>
    obtain ⟨b, hb⟩ := (h.reader _ (List.mem_of_getElem? hrd)).owns _ (Or.inr hpc)
    exact h.follows_fetchSub hrd hpc hb
  | clearStep hrd hpc => exact Inv.follows_clearStep hrd hpc
  | leave hrd hpc => exact h.follows_leave hrd hpc
  | drain hrd hleave hpc => exact Inv.follows_drain hrd hleave

/-! ### Every run -/

/-- One step of the queue, matched by the log. -/
theorem ChannelInv.follows (hi : ChannelInv Q s) {a : Action} (hok : ChannelRun Q s a)
    (hstep : MockExchange.step Q s a = some t) :
    ChannelInv Q t ∧ s.Follows Q t (s.emit Q a) :=
  ⟨hi.step hok hstep, hi.inv.follows hi.delivered hok (Taken.of_step hstep)⟩

end

variable {Q} {size : Nat} {s t : State} {events : List (Broadcast.Event (List UInt8))}

theorem State.broadcast_subscriber {r : Nat} {rd : Reader} (hrd : t.readers[r]? = some rd) :
    (t.broadcast Q).subscribers[r]? = some (t.subscriber rd) := by
  rw [State.broadcast, List.getElem?_map, hrd, Option.map_some]

/-- Runs with one payload size, in which nobody leaves and nothing is aborted, need
no look at the ring. -/
theorem channelRun_of_uniformRun
    (hrun : Emits (step Q) (UniformRun Q size) (State.emit Q) State.init events t) :
    Emits (step Q) (ChannelRun Q) (State.emit Q) State.init events t := by
  have hboth : UniformInv Q size t ∧
      Emits (step Q) (ChannelRun Q) (State.emit Q) State.init events t := by
    refine hrun.invariant (P := fun events t => UniformInv Q size t ∧
      Emits (step Q) (ChannelRun Q) (State.emit Q) State.init events t) ⟨.init, .nil⟩ ?_
    rintro events s a u ⟨hi, hsoFar⟩ hok hstep
    exact ⟨hi.step hok hstep, hsoFar.snoc (hi.channelRun hok) hstep⟩
  exact hboth.2

/-- **The queue refines the broadcast log.** Whatever the interleaving of the
atomic steps, what the callers see of the queue is what they could see of the
log, which ends in the image of the queue's state. -/
theorem refines_broadcast
    (hrun : Emits (step Q) (ChannelRun Q) (State.emit Q) State.init events t) :
    Broadcast.Shows events (t.broadcast Q) :=
  hrun.refine (P := ChannelInv Q) (f := State.broadcast Q) ChannelInv.init
    fun _ _ _ hi hok hstep => hi.follows hok hstep

/-- Two readers and messages of one and three bytes with an aborted claim between
them; one reader leaves after the first message without having polled it. -/
theorem refines_broadcast_reader_leaves : ∃ t : State,
    Broadcast.Shows [.subscribed, .subscribed, .claimed [7], .published [7], .delivered 0 [7],
      .unsubscribed 1, .claimed [8, 9], .claimed [1, 2, 3], .published [1, 2, 3],
      .delivered 0 [1, 2, 3]] (t.broadcast .of512) := by
  let b : Block := ⟨0, 19, 1, 2, [7]⟩
  let c : Block := ⟨19, 20, 2, 1, [8, 9]⟩
  let d : Block := ⟨39, 21, 3, 1, [1, 2, 3]⟩
  let claim (b : Block) : List Action := [.loadReadOffset b, .storeHeader b, .storeHeader b,
    .storeHeader b, .storeHeader b]
  let labels : List Action := [.join, .join, .reserve 1 [7]] ++ claim b ++
    [.writeToBuffer b, .poll 0, .leave 1, .drain 1, .releaseStep 1, .drain 1, .callRelease 0] ++
    List.replicate 6 (.releaseStep 0) ++ [.reserve 2 [8, 9], .reserve 3 [1, 2, 3]] ++ claim c ++
    [.abortBuffer c, .poll 0] ++ List.replicate 6 (.releaseStep 0) ++ claim d ++
    [.writeToBuffer d, .poll 0]
  have hexec : (execEmits (step .of512) (ChannelRun .of512) (State.emit .of512) []
      State.init labels).any (fun result => decide (result.1 =
        [.subscribed, .subscribed, .claimed [7], .published [7], .delivered 0 [7],
          .unsubscribed 1, .claimed [8, 9], .claimed [1, 2, 3], .published [1, 2, 3],
          .delivered 0 [1, 2, 3]])) = true := by
    decide +kernel
  obtain ⟨events, t, hrun, hevents⟩ := exists_emits_of_exec hexec
  have hshown := of_decide_eq_true hevents
  simp only at hshown
  subst hshown
  exact ⟨t, refines_broadcast hrun⟩

/-! ### Polls in separate loads -/

/-- Writers fill their claims. -/
def Action.FillsClaim : Action → Prop
  | .reserve size data => data.length = size
  | _ => True

instance (a : Action) : Decidable a.FillsClaim := by
  apply Action.casesOn (motive := fun a => Decidable a.FillsClaim) a <;> intros <;>
    dsimp only [Action.FillsClaim] <;> infer_instance

/-- What holds where polls are split and the flag is still set at their second load. -/
structure SplitInv (Q : RingSize) (size : Nat) (s : State) : Prop where
  inv : Inv Q s
  uniform : Uniform Q size s
  staying : s.Staying
  noAborts : s.NoAborts
  matched : s.Matched
  delivered : Delivered Q s

theorem SplitInv.init : SplitInv Q size State.init := by
  have hroom := Q.ge_64
  refine ⟨.init, .init (by omega), ?_, ?_, ?_, .init⟩ <;>
    simp [State.Staying, State.NoAborts, State.Matched, State.init]

variable {s : State} {a : Action}

theorem SplitInv.pollsFirst (hi : SplitInv Q size s) (hrun : SplitRun Q size s a)
    (hfills : a.FillsClaim) (htaken : Taken Q s a t) : PollsFirst s a := by
  cases htaken with
  | reserve => exact hfills
  | loadSizeAndType hrd hpc =>
    intro rd' hrd'
    rw [hrd, Option.mem_some_iff] at hrd'
    subst hrd'
    exact hi.matched _ (List.mem_of_getElem? hrd) hpc
  | releaseHeld => exact hrun
  | releaseNext => exact hrun
  | _ => trivial

theorem SplitInv.step (hi : SplitInv Q size s) (hrun : SplitRun Q size s a)
    (hready : FlagStillReady Q s a) (hfills : a.FillsClaim) (htaken : Taken Q s a t)
    (hstep : MockExchange.step Q s a = some t) : SplitInv Q size t := by
  have hsound := hrun.sound hi.inv hi.uniform hi.staying hi.noAborts hi.matched htaken
  have hi' := hi.inv.step hsound hstep
  refine ⟨hi', hi.uniform.step hi.inv hi' hsound ?_ htaken, hi.staying.step htaken.change ?_,
    hi.noAborts.step htaken ?_, hi.matched.step hi.inv hi.uniform hready htaken,
    hi.delivered.step hi.inv hsound (hi.pollsFirst hrun hfills htaken) htaken⟩
  · rintro n data rfl
    exact hrun.1
  · rintro r rfl
    exact hrun
  · rintro b rfl
    exact hrun

/-- **Split polls refine the broadcast log** as well, as long as the flag that
the first load of a poll saw is still set when the second load matches. -/
theorem split_polls_refine_broadcast (hrun : Emits (step Q)
    (fun s a => (SplitRun Q size s a ∧ FlagStillReady Q s a) ∧ a.FillsClaim) (State.emit Q)
    State.init events t) : Broadcast.Shows events (t.broadcast Q) := by
  refine hrun.refine (P := SplitInv Q size) (f := State.broadcast Q) SplitInv.init ?_
  rintro s a u hi ⟨⟨hok, hready⟩, hfills⟩ hstep
  have htaken := Taken.of_step hstep
  have hsound := hok.sound hi.inv hi.uniform hi.staying hi.noAborts hi.matched htaken
  exact ⟨hi.step hok hready hfills htaken hstep,
    hi.inv.follows hi.delivered ⟨hsound, hi.pollsFirst hok hfills htaken⟩ htaken⟩

/-- Two readers whose loads of one message interleave. -/
theorem split_polls_refine_broadcast_interleaved : ∃ t : State,
    Broadcast.Shows [.subscribed, .subscribed, .claimed [7], .published [7], .delivered 1 [7],
      .delivered 0 [7]] (t.broadcast .smallest) := by
  let b : Block := ⟨0, 19, 1, 2, [7]⟩
  let labels : List Action := [.join, .join, .reserve 1 [7], .loadReadOffset b, .storeHeader b,
    .storeHeader b, .storeHeader b, .storeHeader b, .writeToBuffer b, .loadCommitFlag 0,
    .loadCommitFlag 1, .loadAbsOffset 1, .loadAbsOffset 0, .loadSizeAndType 1,
    .loadSizeAndType 0]
  have hexec : (execEmits (step .smallest) (fun s a => (SplitRun .smallest 1 s a ∧
      FlagStillReady .smallest s a) ∧ a.FillsClaim) (State.emit .smallest) [] State.init labels).any
      (fun result => decide (result.1 = [.subscribed, .subscribed, .claimed [7], .published [7],
        .delivered 1 [7], .delivered 0 [7]])) = true := by
    decide +kernel
  obtain ⟨events, t, hrun, hevents⟩ := exists_emits_of_exec hexec
  have hshown := of_decide_eq_true hevents
  simp only at hshown
  subst hshown
  exact ⟨t, split_polls_refine_broadcast hrun⟩

/-- **What a caller can observe.** A reader is handed claimed messages in the
order of the claims, only after they were committed and each at most once; two
readers that joined at one write offset are handed the same, one of them maybe
less of it. -/
theorem observed_deliveries
    (hrun : Emits (step Q) (ChannelRun Q) (State.emit Q) State.init events t) :
    (∀ r, (Broadcast.deliveriesTo r events).Sublist (Broadcast.claims events) ∧
      (Broadcast.deliveriesTo r events).Subperm (Broadcast.publications events)) ∧
    ∀ (r r' : Nat) (rd rd' : Reader), t.readers[r]? = some rd → t.readers[r']? = some rd' →
      rd.joinOffset = rd'.joinOffset →
      Broadcast.deliveriesTo r events <+: Broadcast.deliveriesTo r' events ∨
        Broadcast.deliveriesTo r' events <+: Broadcast.deliveriesTo r events := by
  have hshows : Broadcast.Shows events (t.broadcast Q) :=
    hrun.refine (P := ChannelInv Q) (f := State.broadcast Q) ChannelInv.init
      fun _ _ _ hi hok hstep => hi.follows hok hstep
  refine ⟨fun r => ⟨hshows.deliveriesTo_sublist r, hshows.deliveriesTo_subperm r⟩, ?_⟩
  intro r r' rd rd' hrd hrd' hjoin
  refine hshows.agreement (State.broadcast_subscriber hrd) (State.broadcast_subscriber hrd') ?_
  simp only [State.subscriber, hjoin]

/-- Messages of one and two bytes; one reader leaves when it has read the first. -/
theorem observed_deliveries_two_readers :
    ∃ events : List (Broadcast.Event (List UInt8)),
      Broadcast.deliveriesTo 0 events = [[7], [8, 9]] ∧ Broadcast.deliveriesTo 1 events = [[7]] ∧
      (Broadcast.deliveriesTo 0 events).Sublist (Broadcast.claims events) ∧
      (Broadcast.deliveriesTo 1 events <+: Broadcast.deliveriesTo 0 events ∨
        Broadcast.deliveriesTo 0 events <+: Broadcast.deliveriesTo 1 events) := by
  let b : Block := ⟨0, 19, 1, 2, [7]⟩
  let c : Block := ⟨19, 20, 2, 2, [8, 9]⟩
  let claim (b : Block) : List Action := [.loadReadOffset b, .storeHeader b, .storeHeader b,
    .storeHeader b, .storeHeader b]
  let labels : List Action := [.join, .join, .reserve 1 [7], .reserve 2 [8, 9]] ++ claim c ++
    claim b ++ [.writeToBuffer c, .writeToBuffer b, .poll 0, .callRelease 0, .releaseStep 0,
      .poll 0, .poll 1, .callRelease 1] ++ List.replicate 6 (.releaseStep 1) ++
    [.leave 1, .drain 1, .releaseStep 1, .drain 1]
  have hexec : (execEmits (step .smallest) (ChannelRun .smallest) (State.emit .smallest) []
      State.init labels).any (fun result => decide (
        Broadcast.deliveriesTo 0 result.1 = [[7], [8, 9]] ∧
        Broadcast.deliveriesTo 1 result.1 = [[7]] ∧
        result.2.readers.map Reader.joinOffset = [0, 0])) = true := by
    decide +kernel
  obtain ⟨events, t, hrun, hresult⟩ := exists_emits_of_exec hexec
  obtain ⟨hzero, hone, hjoins⟩ := of_decide_eq_true hresult
  obtain ⟨horder, hagree⟩ := observed_deliveries hrun
  cases hreaders : t.readers with
  | nil => simp [hreaders] at hjoins
  | cons rd rest =>
    cases rest with
    | nil => simp [hreaders] at hjoins
    | cons rd' rest =>
      simp only [hreaders, List.map_cons, List.cons.injEq] at hjoins
      exact ⟨events, hzero, hone, (horder 0).1,
        hagree 1 0 rd' rd (by simp [hreaders]) (by simp [hreaders])
          (hjoins.2.1.trans hjoins.1.symm)⟩

end MockExchange
