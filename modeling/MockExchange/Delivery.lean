import MockExchange.LowWatermark

/-!
# What a reader has received

A reader that polls before it releases has been handed, at every moment, exactly
the data of the committed messages between its join and its offset, in the order
of their reservations. Skip messages and aborted claims are passed over.
-/

namespace MockExchange

open ByteMemory Tiling MessageHeader Transition ListUpdate

variable (Q : RingSize)

/-- The block carries a payload for the readers. -/
def State.delivers (s : State) (b : Block) : Bool :=
  decide (s.stage b.offset = .committed) && !b.isPadding Q

/-- The payloads of the messages reserved in `[c, d)` and committed, in order. -/
def State.payloadsIn (s : State) (c d : Nat) : List (List UInt8) :=
  ((slice Block.offset s.log c d).filter (s.delivers Q)).map Block.data

/-- Up to where a reader has been served: past the block it holds. -/
def Reader.cutoff (rd : Reader) : Nat :=
  match rd.pc with
  | .holding _ | .releaseCalled _ => rd.absReadOffset + 1
  | _ => rd.absReadOffset

structure Delivered (s : State) : Prop where
  full : ∀ b ∈ s.log, b.data.length = b.size
  received : ∀ rd ∈ s.readers, rd.leaveOffset = none →
    rd.received = s.payloadsIn Q rd.joinOffset rd.cutoff
  holding : ∀ rd ∈ s.readers, ∀ hdr, rd.pc = .holding hdr → s.CommittedAt rd.absReadOffset

/-- Writers fill their claims, and a reader releases what a poll handed it. -/
def PollsFirst (s : State) : Action → Prop
  | .reserve size data => data.length = size
  | .callRelease r => ∀ rd ∈ s.readers[r]?, rd.pc ≠ .idle
  | .loadSizeAndType r => ∀ rd ∈ s.readers[r]?, s.CommittedAt rd.absReadOffset
  | _ => True

/-- The steps are sound, writers fill their claims, and a reader releases what a
poll handed it. -/
def ChannelRun (s : State) (a : Action) : Prop := Sound Q s a ∧ PollsFirst s a

instance (s : State) (a : Action) : Decidable (ChannelRun Q s a) := by
  apply Action.casesOn (motive := fun a => Decidable (ChannelRun Q s a)) a <;> intros <;>
    dsimp only [ChannelRun, Sound, PollsFirst] <;> infer_instance

/-- A poll is one step, a reader releases what a poll handed it, and nobody
leaves. -/
def PollingRun (s : State) : Action → Prop
  | .callRelease r => ∀ rd ∈ s.readers[r]?, rd.pc ≠ .idle
  | .leave _ | .drain _ => False
  | .loadCommitFlag _ | .loadAbsOffset _ | .loadSizeAndType _ => False
  | _ => True

instance (s : State) (a : Action) : Decidable (PollingRun s a) := by
  apply Action.casesOn (motive := fun a => Decidable (PollingRun s a)) a <;> intros <;>
    dsimp only [PollingRun] <;> infer_instance

section

variable {Q} {s t : State} {b : Block} {r : Nat} {rd : Reader}

theorem PollingRun.callRelease (hrd : s.readers[r]? = some rd) {hdr : Nat}
    (hpc : rd.pc = .holding hdr) : PollingRun s (.callRelease r) := by
  intro rd' hrd'
  rw [hrd, Option.mem_some_iff] at hrd'
  rw [← hrd', hpc]
  simp

/-- What is left to show of a polling run: its joins, claims and polls. -/
theorem PollingRun.sound {a : Action} (hrun : PollingRun s a) (h : Inv Q s) (hstay : s.Staying)
    (hjoin : a = .join → s.activeReaders < 255)
    (hreserve : ∀ size data, a = .reserve size data → s.MayReserve Q size data)
    (hpoll : ∀ r, a = .poll r → ∀ rd ∈ s.readers[r]?, s.PollsSettled Q rd) : Sound Q s a := by
  cases a with
  | join => exact hjoin rfl
  | reserve size data => exact hreserve size data rfl
  | poll r => exact hpoll r rfl
  | callRelease r =>
    intro rd hrd hidle
    exact absurd hidle (hrun rd hrd)
  | releaseStep r =>
    intro rd hrd
    exact h.advancesTo hstay (List.mem_of_getElem? hrd)
  | drain => exact hrun.elim
  | loadCommitFlag => exact hrun.elim
  | loadAbsOffset => exact hrun.elim
  | loadSizeAndType => exact hrun.elim
  | _ => trivial

theorem PollingRun.pollsFirst {a : Action} (hrun : PollingRun s a)
    (hfull : ∀ size data, a = .reserve size data → data.length = size) : PollsFirst s a := by
  cases a with
  | reserve size data => exact hfull size data rfl
  | callRelease => exact hrun
  | loadSizeAndType => exact hrun.elim
  | _ => trivial

theorem PollingRun.staying {a : Action} (hrun : PollingRun s a) (r : Nat) : a ≠ .leave r := by
  rintro rfl
  exact hrun

theorem Inv.cutoff_le (h : Inv Q s) (hrd : rd ∈ s.readers) : rd.cutoff ≤ s.writeOffset := by
  have hr := h.reader rd hrd
  have hpos := hr.boundary.le h.tiles
  have howns : (∃ b, b ∈ s.log ∧ rd.absReadOffset = b.offset) →
      rd.absReadOffset + 1 ≤ s.writeOffset := by
    rintro ⟨b, hb, heq⟩
    have := h.offset_lt hb
    omega
  simp only [Reader.cutoff]
  split
  · rename_i hdr hpc
    obtain ⟨b, hb⟩ := hr.owns hdr (Or.inl hpc)
    exact howns ⟨b, hb.mem_log, hb.position⟩
  · rename_i hdr hpc
    obtain ⟨b, hb⟩ := hr.owns hdr (Or.inr hpc)
    exact howns ⟨b, hb.mem_log, hb.position⟩
  · exact hpos

/-- Everything a reader was served from is settled. -/
theorem Inv.settled_of_cutoff (h : Inv Q s) (hrd : rd ∈ s.readers) (hb : b ∈ s.log)
    (hjoin : rd.joinOffset ≤ b.offset) (hlt : b.offset < rd.cutoff) :
    (s.stage b.offset).settled = true := by
  have hr := h.reader rd hrd
  have howns : (∃ c, c ∈ s.log ∧ rd.absReadOffset = c.offset ∧
      (s.stage c.offset).settled = true) → b.offset < rd.absReadOffset + 1 →
      (s.stage b.offset).settled = true := by
    rintro ⟨c, hc, heq, hst⟩ hle
    rcases Nat.lt_or_ge b.offset c.offset with hlow | hge
    · exact hr.settled b hb hjoin (by omega)
    · rw [h.eq_of_offset_eq hb hc (by omega)]
      exact hst
  simp only [Reader.cutoff] at hlt
  split at hlt
  · rename_i hdr hpc
    obtain ⟨c, hc⟩ := hr.owns hdr (Or.inl hpc)
    exact howns ⟨c, hc.mem_log, hc.position, hc.settled⟩ hlt
  · rename_i hdr hpc
    obtain ⟨c, hc⟩ := hr.owns hdr (Or.inr hpc)
    exact howns ⟨c, hc.mem_log, hc.position, hc.settled⟩ hlt
  · exact hr.settled b hb hjoin hlt

/-! ### The payloads of a slice -/

theorem State.payloadsIn_congr {c d : Nat}
    (hlog : slice Block.offset t.log c d = slice Block.offset s.log c d)
    (hstage : ∀ b ∈ slice Block.offset s.log c d, t.stage b.offset = s.stage b.offset) :
    t.payloadsIn Q c d = s.payloadsIn Q c d := by
  rw [State.payloadsIn, State.payloadsIn, hlog]
  congr 1
  apply List.filter_congr
  intro b hb
  rw [State.delivers, State.delivers, hstage b hb]

theorem Inv.slice_succ (h : Inv Q s) (hb : b ∈ s.log) {c : Nat} (hc : c ≤ b.offset) :
    slice Block.offset s.log c (b.offset + 1) = slice Block.offset s.log c b.offset ++ [b] := by
  rw [← h.tiles.slice_end hb hc]
  apply slice_congr
  intro x hx
  have hlen := (h.shape b hb).length_ge
  constructor
  · intro hbetween
    omega
  · intro hbetween
    refine ⟨hbetween.1, ?_⟩
    by_contra hge
    have := h.finish_le_of_lt hb hx (by omega)
    simp only [Block.finish] at this
    omega

theorem Inv.payloadsIn_succ (h : Inv Q s) (hb : b ∈ s.log) {c : Nat} (hc : c ≤ b.offset) :
    s.payloadsIn Q c (b.offset + 1) =
      s.payloadsIn Q c b.offset ++ if s.delivers Q b then [b.data] else [] := by
  rw [State.payloadsIn, h.slice_succ hb hc, List.filter_append, List.map_append,
    List.filter_singleton]
  cases s.delivers Q b with
  | true => rfl
  | false => rfl

theorem Inv.payloadsIn_finish (h : Inv Q s) (hb : b ∈ s.log) {c : Nat} (hc : c ≤ b.offset) :
    s.payloadsIn Q c b.finish = s.payloadsIn Q c (b.offset + 1) := by
  rw [State.payloadsIn, State.payloadsIn, h.slice_succ hb hc]
  rw [← h.tiles.slice_end hb hc]
  rfl

/-! ### One step -/

theorem Delivered.of_same (hi : Delivered Q s) (h : Inv Q s) (hlog : t.log = s.log)
    (hreaders : t.readers = s.readers)
    (hstage : ∀ b ∈ s.log, (s.stage b.offset).settled = true →
      t.stage b.offset = s.stage b.offset) : Delivered Q t := by
  refine ⟨by rw [hlog]; exact hi.full, ?_, ?_⟩
  · intro rd hrd hstay
    rw [hreaders] at hrd
    rw [hi.received rd hrd hstay]
    symm
    apply State.payloadsIn_congr (by rw [hlog])
    intro b hb
    obtain ⟨hb, hjoin, hlt⟩ := mem_slice.mp hb
    exact hstage b hb (h.settled_of_cutoff hrd hb hjoin hlt)
  · intro rd hrd hdr hpc
    rw [hreaders] at hrd
    obtain ⟨b, hb, hoff, hst⟩ := hi.holding rd hrd hdr hpc
    rw [← hoff] at hst
    refine ⟨b, by rw [hlog]; exact hb, hoff, ?_⟩
    rw [← hoff, hstage b hb (by rw [hst]; rfl)]
    exact hst

theorem Delivered.of_set (hi : Delivered Q s) {rd' : Reader} (hlog : t.log = s.log)
    (hstage : t.stage = s.stage) (hreaders : t.readers = s.readers.set r rd')
    (hholding : ∀ hdr, rd'.pc = .holding hdr → s.CommittedAt rd'.absReadOffset)
    (hreceived : rd'.leaveOffset = none →
      rd'.received = s.payloadsIn Q rd'.joinOffset rd'.cutoff) : Delivered Q t := by
  have hpayloads : ∀ c d, t.payloadsIn Q c d = s.payloadsIn Q c d := by
    intro c d
    exact State.payloadsIn_congr (by rw [hlog]) (fun b _ => by rw [hstage])
  refine ⟨by rw [hlog]; exact hi.full, ?_, ?_⟩
  · intro x hx hstay
    rw [hreaders] at hx
    rw [hpayloads]
    rcases List.mem_or_eq_of_mem_set hx with hx | rfl
    · exact hi.received x hx hstay
    · exact hreceived hstay
  · intro x hx hdr hpc
    rw [hreaders] at hx
    rw [State.CommittedAt, hlog, hstage]
    rcases List.mem_or_eq_of_mem_set hx with hx | rfl
    · exact hi.holding x hx hdr hpc
    · exact hholding hdr hpc

/-- The reader moves on without being served anything: the block it may now be
past carries no payload. -/
theorem Delivered.callRelease (hi : Delivered Q s) (h : Inv Q s)
    (hrd : s.readers[r]? = some rd) (hcut : rd.cutoff = rd.absReadOffset) {hdr : Nat}
    (hlog : t.log = s.log) (hstage : t.stage = s.stage)
    (hreaders : t.readers = s.readers.set r { rd with pc := .releaseCalled hdr })
    (hb : b ∈ s.log) (hpos : rd.absReadOffset = b.offset) (hnone : s.delivers Q b = false) :
    Delivered Q t := by
  have hjoin := (h.reader rd (List.mem_of_getElem? hrd)).join_le
  apply hi.of_set hlog hstage hreaders (by simp)
  intro hstay
  have hold := hi.received rd (List.mem_of_getElem? hrd) hstay
  rw [hcut, hpos] at hold
  change rd.received = s.payloadsIn Q rd.joinOffset (rd.absReadOffset + 1)
  rw [hpos, h.payloadsIn_succ hb (by omega), hnone, hold]
  simp

/-- The payload in front of a reader is what the writer put there. -/
theorem Delivered.payload_eq (hi : Delivered Q s) (h : Inv Q s) (hrd : rd ∈ s.readers) {hdr : Nat}
    (howns : Owns Q s rd hdr b) (hdelivers : s.delivers Q b = true) :
    payload s.mem hdr (messageSize s.mem hdr) = b.data := by
  have hb := howns.mem_log
  have hheader := h.header hrd hb howns.settled howns.pending
  simp only [State.delivers, Bool.and_eq_true, decide_eq_true_eq, Bool.not_eq_true'] at hdelivers
  have hmem := h.block b hb hheader.live
  have hsize := hmem.messageSize (by rw [hdelivers.1]; decide) hheader.pending_pos
  rw [Block.messageSize, hdelivers.2] at hsize
  simp only [Bool.false_eq_true, if_false] at hsize
  rw [howns.hdr_eq, hsize, ← hi.full b hb]
  exact hmem.data hdelivers.1 hdelivers.2 hheader.pending_pos

theorem Delivered.handOut (hi : Delivered Q s) (h : Inv Q s)
    (hrd : s.readers[r]? = some rd) (hcut : rd.cutoff = rd.absReadOffset) {hdr : Nat}
    (hlog : t.log = s.log) (hstage : t.stage = s.stage)
    (hreaders : t.readers = s.readers.set r { rd with
      pc := .holding hdr
      received := rd.received ++ [payload s.mem hdr (messageSize s.mem hdr)] })
    (howns : Owns Q s rd hdr b) (hdelivers : s.delivers Q b = true) : Delivered Q t := by
  have hb := howns.mem_log
  have hpos := howns.position
  have hjoin := (h.reader rd (List.mem_of_getElem? hrd)).join_le
  have hpayload := hi.payload_eq h (List.mem_of_getElem? hrd) howns hdelivers
  have hcommitted : s.CommittedAt rd.absReadOffset := by
    rw [State.delivers, Bool.and_eq_true, decide_eq_true_eq] at hdelivers
    exact ⟨b, hb, hpos.symm, by rw [hpos]; exact hdelivers.1⟩
  apply hi.of_set hlog hstage hreaders (fun _ _ => hcommitted)
  intro hstay
  have hold := hi.received rd (List.mem_of_getElem? hrd) hstay
  rw [hcut, hpos] at hold
  change rd.received ++ _ = s.payloadsIn Q rd.joinOffset (rd.absReadOffset + 1)
  rw [hpos, h.payloadsIn_succ hb (by omega), hdelivers, hold, hpayload]
  rfl

/-- What the flag of an owned block says about its stage. -/
theorem Inv.committed_of_flag (h : Inv Q s) (hrd : rd ∈ s.readers) {hdr : Nat}
    (howns : Owns Q s rd hdr b)
    (hflag : commitFlag s.mem hdr = CommitFlag.readyForConsumer.toByte) :
    s.stage b.offset = .committed := by
  have hheader := h.header hrd howns.mem_log howns.settled howns.pending
  rw [howns.hdr_eq, hheader.flag] at hflag
  rcases Stage.settled_iff.mp howns.settled with hst | hst
  · exact hst
  · rw [hst] at hflag
    cases hflag

theorem Inv.aborted_of_flag (h : Inv Q s) (hrd : rd ∈ s.readers) {hdr : Nat}
    (howns : Owns Q s rd hdr b) (hflag : commitFlag s.mem hdr = CommitFlag.aborted.toByte) :
    s.stage b.offset = .aborted := by
  have hheader := h.header hrd howns.mem_log howns.settled howns.pending
  rw [howns.hdr_eq, hheader.flag] at hflag
  rcases Stage.settled_iff.mp howns.settled with hst | hst
  · rw [hst] at hflag
    cases hflag
  · exact hst

theorem Inv.isPadding_iff_type (h : Inv Q s) (hrd : rd ∈ s.readers) {hdr : Nat}
    (howns : Owns Q s rd hdr b) :
    type s.mem hdr = MessageType.padding.toNat ↔ b.isPadding Q = true := by
  have hheader := h.header hrd howns.mem_log howns.settled howns.pending
  rw [howns.hdr_eq, hheader.type, Block.type]
  cases b.isPadding Q <;> simp [MessageType.toNat]

theorem pollOutcome_ready {m : Memory} {p : Nat} {out : PollOutcome}
    (hout : pollOutcome Q m p = out) (hwrapper : out = .wrapper ∨ out = .skipPadding) :
    commitFlag m (p % Q.bytes) = CommitFlag.readyForConsumer.toByte ∧
      absOffset m (p % Q.bytes) = p ∧
      (type m (p % Q.bytes) = MessageType.padding.toNat ↔ out = .skipPadding) := by
  subst hout
  simp only [pollOutcome] at hwrapper ⊢
  split at hwrapper
  · rename_i hflag
    rw [if_pos hflag]
    split at hwrapper
    · simp at hwrapper
    · rename_i hoff
      rw [if_neg hoff]
      refine ⟨hflag, not_not.mp hoff, ?_⟩
      split
      · rename_i htype
        simp [htype]
      · rename_i htype
        simp [htype]
  · split at hwrapper <;> simp at hwrapper

theorem pollOutcome_aborted {m : Memory} {p : Nat} (hout : pollOutcome Q m p = .skipAborted) :
    commitFlag m (p % Q.bytes) = CommitFlag.aborted.toByte := by
  simp only [pollOutcome] at hout
  split at hout
  · split at hout
    · cases hout
    · split at hout <;> cases hout
  · split at hout
    · assumption
    · cases hout

/-- A committed block in front of an idle reader is found by its poll. -/
theorem Inv.pollOutcome_ne_nullopt (h : Inv Q s) (hrd : rd ∈ s.readers) (hpc : rd.pc = .idle)
    (hcommitted : s.CommittedAt rd.absReadOffset) :
    pollOutcome Q s.mem rd.absReadOffset ≠ .nullopt := by
  obtain ⟨b, hb, hoff, hst⟩ := hcommitted
  have hstay := (h.reader rd hrd).staying (Or.inl hpc)
  have hp : rd.pending b.offset = true := by
    rw [Reader.pending_iff, hstay]
    exact ⟨by omega, by simp⟩
  rw [← hoff] at hst ⊢
  have hheader := h.header hrd hb (by rw [hst]; rfl) hp
  have hflag := hheader.flag
  have habs := hheader.absOffset
  rw [hst] at hflag
  change commitFlag s.mem (b.offset % Q.bytes) = CommitFlag.readyForConsumer.toByte at hflag
  change absOffset s.mem (b.offset % Q.bytes) = b.offset at habs
  simp only [pollOutcome, hflag, habs, if_true]
  split
  · rename_i hne
    exact absurd rfl hne
  · split <;> simp

theorem State.delivers_of_padding (hpad : b.isPadding Q = true) : s.delivers Q b = false := by
  simp [State.delivers, hpad]

theorem State.delivers_of_aborted (hst : s.stage b.offset = .aborted) :
    s.delivers Q b = false := by
  simp [State.delivers, hst]

theorem State.delivers_of_committed (hst : s.stage b.offset = .committed)
    (hpad : b.isPadding Q = false) : s.delivers Q b = true := by
  simp [State.delivers, hst, hpad]

/-- What a poll decides, over a block that is settled. -/
theorem Delivered.pollHeader (hi : Delivered Q s) (h : Inv Q s) (hrd : s.readers[r]? = some rd)
    (hpc : rd.pc = .idle) (hsettled : s.PollsSettled Q rd) :
    Delivered Q (pollHeader Q s r rd) := by
  have hcut : rd.cutoff = rd.absReadOffset := by simp [Reader.cutoff, hpc]
  have hmem := List.mem_of_getElem? hrd
  simp only [MockExchange.pollHeader]
  cases hout : pollOutcome Q s.mem rd.absReadOffset with
  | nullopt => exact hi
  | skipPadding =>
    obtain ⟨b, hb⟩ := h.owns_of_staying hrd (Or.inl hpc) (hsettled (by simp [hout]))
    obtain ⟨-, -, htype⟩ := pollOutcome_ready hout (Or.inr rfl)
    have hpad := (h.isPadding_iff_type hmem hb).mp (htype.mpr rfl)
    exact hi.callRelease h hrd hcut rfl rfl rfl hb.mem_log hb.position
      (State.delivers_of_padding hpad)
  | skipAborted =>
    obtain ⟨b, hb⟩ := h.owns_of_staying hrd (Or.inl hpc) (hsettled (by simp [hout]))
    have hst := h.aborted_of_flag hmem hb (pollOutcome_aborted hout)
    exact hi.callRelease h hrd hcut rfl rfl rfl hb.mem_log hb.position
      (State.delivers_of_aborted hst)
  | wrapper =>
    obtain ⟨b, hb⟩ := h.owns_of_staying hrd (Or.inl hpc) (hsettled (by simp [hout]))
    obtain ⟨hflag, -, htype⟩ := pollOutcome_ready hout (Or.inl rfl)
    have hst := h.committed_of_flag hmem hb hflag
    have hpad : b.isPadding Q = false := by
      rw [h.isPadding_iff_type hmem hb] at htype
      simpa using htype
    exact hi.handOut h hrd hcut rfl rfl rfl hb (State.delivers_of_committed hst hpad)

theorem Delivered.loadCommitFlag (hi : Delivered Q s) (h : Inv Q s)
    (hrd : s.readers[r]? = some rd) (hpc : rd.pc = .idle)
    (hsettled : commitFlag s.mem (rd.absReadOffset % Q.bytes) = CommitFlag.aborted.toByte →
      s.SettledAt rd.absReadOffset) : Delivered Q (loadCommitFlag Q s r rd) := by
  have hcut : rd.cutoff = rd.absReadOffset := by simp [Reader.cutoff, hpc]
  simp only [MockExchange.loadCommitFlag]
  split
  · refine hi.of_set rfl rfl rfl (by simp) ?_
    intro hstay
    exact (hi.received rd (List.mem_of_getElem? hrd) hstay).trans (by rw [hcut]; rfl)
  · split
    · rename_i haborted
      obtain ⟨b, hb⟩ := h.owns_of_staying hrd (Or.inl hpc) (hsettled haborted)
      have hst := h.aborted_of_flag (List.mem_of_getElem? hrd) hb haborted
      exact hi.callRelease h hrd hcut rfl rfl rfl hb.mem_log hb.position
        (State.delivers_of_aborted hst)
    · exact hi

theorem Delivered.loadAbsOffset (hi : Delivered Q s) (hrd : s.readers[r]? = some rd)
    (hpc : rd.pc = .flagLoaded) : Delivered Q (loadAbsOffset Q s r rd) := by
  have hcut : rd.cutoff = rd.absReadOffset := by simp [Reader.cutoff, hpc]
  have hcut' : ({ rd with
      pc := if absOffset s.mem (rd.absReadOffset % Q.bytes) ≠ rd.absReadOffset then .idle
        else .offsetMatched } : Reader).cutoff = rd.absReadOffset := by
    simp only [Reader.cutoff]
    split <;> rename_i heq <;> try split at heq
    all_goals first | rfl | cases heq
  refine hi.of_set rfl rfl rfl ?_ ?_
  · intro hdr hpc'
    simp only at hpc'
    split at hpc' <;> cases hpc'
  intro hstay
  rw [hcut', ← hcut]
  exact hi.received rd (List.mem_of_getElem? hrd) hstay

theorem Delivered.loadSizeAndType (hi : Delivered Q s) (h : Inv Q s)
    (hrd : s.readers[r]? = some rd) (hpc : rd.pc = .offsetMatched)
    (hcommitted : s.CommittedAt rd.absReadOffset) : Delivered Q (loadSizeAndType Q s r rd) := by
  have hcut : rd.cutoff = rd.absReadOffset := by simp [Reader.cutoff, hpc]
  have hmem := List.mem_of_getElem? hrd
  obtain ⟨b, hb⟩ := h.owns_of_staying hrd (Or.inr (Or.inr hpc)) hcommitted.settledAt
  have hst : s.stage b.offset = .committed := by
    obtain ⟨-, -, -, hst⟩ := hcommitted
    rwa [hb.position] at hst
  simp only [MockExchange.loadSizeAndType]
  split
  · rename_i htype
    exact hi.callRelease h hrd hcut rfl rfl rfl hb.mem_log hb.position
      (State.delivers_of_padding ((h.isPadding_iff_type hmem hb).mp htype))
  · rename_i htype
    have hpad : b.isPadding Q = false := by
      rw [h.isPadding_iff_type hmem hb] at htype
      simpa using htype
    exact hi.handOut h hrd hcut rfl rfl rfl hb (State.delivers_of_committed hst hpad)

theorem Delivered.fetchSub (hi : Delivered Q s) (h : Inv Q s) (hrd : s.readers[r]? = some rd)
    {hdr : Nat} (hpc : rd.pc = .releaseCalled hdr) (hb : Owns Q s rd hdr b) :
    Delivered Q (fetchSub Q s r rd hdr) := by
  have hjoin := (h.reader rd (List.mem_of_getElem? hrd)).join_le
  have hpos := hb.position
  have hcut : rd.cutoff = rd.absReadOffset + 1 := by simp [Reader.cutoff, hpc]
  rw [h.fetchSub_eq hrd hb]
  generalize hlast : decide (s.pendingCount b.offset ≤ 1) = last
  have hcut' : (rd.passed Q b last).cutoff = b.finish := by
    simp only [Reader.cutoff, Reader.passed, Reader.afterRelease]
    split <;> rename_i heq <;> split at heq <;> try split at heq
    all_goals first | rfl | cases heq
  refine hi.of_set rfl rfl rfl ?_ ?_
  · intro hdr' hpc'
    simp only [Reader.passed, Reader.afterRelease] at hpc'
    split at hpc' <;> try split at hpc'
    all_goals cases hpc'
  intro hstay
  rw [hcut', h.payloadsIn_finish hb.mem_log (by change rd.joinOffset ≤ _; omega), ← hpos, ← hcut]
  exact hi.received rd (List.mem_of_getElem? hrd) hstay

theorem Delivered.clearStep (hi : Delivered Q s) (hrd : s.readers[r]? = some rd)
    {hdr total : Nat} {step : ClearStep} (hpc : rd.pc = .clearing step hdr total) :
    Delivered Q (clearStep s r rd step hdr total) := by
  have hcut : rd.cutoff = rd.absReadOffset := by simp [Reader.cutoff, hpc]
  have hold := hi.received rd (List.mem_of_getElem? hrd)
  rw [hcut] at hold
  cases step with
  | body => exact hi.of_set rfl rfl rfl (by simp) hold
  | size => exact hi.of_set rfl rfl rfl (by simp) hold
  | type => exact hi.of_set rfl rfl rfl (by simp) hold
  | flag => exact hi.of_set rfl rfl rfl (by simp) hold
  | advance =>
    have hcut' : ({ rd with pc := rd.afterRelease } : Reader).cutoff = rd.absReadOffset := by
      simp only [Reader.cutoff, Reader.afterRelease]
      split <;> rename_i heq <;> split at heq
      all_goals first | rfl | cases heq
    refine hi.of_set rfl rfl rfl ?_ ?_
    · intro hdr' hpc'
      simp only [Reader.afterRelease] at hpc'
      split at hpc' <;> cases hpc'
    · rw [hcut']
      exact hold

theorem Delivered.join (hi : Delivered Q s) : Delivered Q (join s) := by
  refine ⟨hi.full, ?_, ?_⟩
  · intro rd hrd hstay
    rw [join_readers, List.mem_append, List.mem_singleton] at hrd
    rcases hrd with hold | rfl
    · exact hi.received rd hold hstay
    · simp [Reader.joinedAt, Reader.cutoff, State.payloadsIn]
  · intro rd hrd hdr hpc
    rw [join_readers, List.mem_append, List.mem_singleton] at hrd
    rcases hrd with hold | rfl
    · exact hi.holding rd hold hdr hpc
    · cases hpc

theorem Delivered.reserve (hi : Delivered Q s) (h : Inv Q s) {size : Nat} {data : List UInt8}
    (hfull : data.length = size) : Delivered Q (reserve Q s size data) := by
  refine ⟨?_, ?_, ?_⟩
  · intro b hb
    rw [reserve_log, List.mem_append, List.mem_singleton] at hb
    rcases hb with hold | rfl
    · exact hi.full b hold
    · exact hfull
  · intro rd hrd hstay
    have hcut := h.cutoff_le hrd
    rw [hi.received rd hrd hstay]
    symm
    apply State.payloadsIn_congr
    · rw [reserve_log]
      exact slice_append_of_le hcut
    · intro b hb
      obtain ⟨hb, -, -⟩ := mem_slice.mp hb
      exact Function.update_of_ne (Nat.ne_of_lt (h.offset_lt hb)) _ _
  · intro rd hrd hdr hpc
    obtain ⟨b, hb, hoff, hst⟩ := hi.holding rd hrd hdr hpc
    rw [← hoff] at hst ⊢
    exact ⟨b, List.mem_append_left _ hb, rfl,
      (Function.update_of_ne (Nat.ne_of_lt (h.offset_lt hb)) _ _).trans hst⟩

theorem Delivered.write (hi : Delivered Q s) (h : Inv Q s)
    (hunsettled : (s.stage b.offset).settled = false) {m : Memory} {stage' : Stage}
    {asserts : Bool} : Delivered Q { s with
      mem := m, stage := Function.update s.stage b.offset stage', assertsHold := asserts } := by
  refine hi.of_same h rfl rfl ?_
  intro c hc hst
  apply Function.update_of_ne
  intro heq
  rw [heq, hunsettled] at hst
  cases hst

theorem Delivered.releaseHeld (hi : Delivered Q s) (hrd : s.readers[r]? = some rd) {hdr : Nat}
    (hpc : rd.pc = .holding hdr) : Delivered Q (MockExchange.callRelease s r rd hdr) := by
  have hcut : rd.cutoff = rd.absReadOffset + 1 := by simp [Reader.cutoff, hpc]
  refine hi.of_set rfl rfl rfl (by simp) ?_
  intro hstay
  exact (hi.received rd (List.mem_of_getElem? hrd) hstay).trans (by rw [hcut]; rfl)

theorem Delivered.drain (hi : Delivered Q s) {e : Nat} (hleave : rd.leaveOffset = some e) :
    Delivered Q (drain Q s r rd e) := by
  simp only [MockExchange.drain]
  split
  · refine hi.of_set rfl rfl rfl (by simp) ?_
    intro hstay
    rw [show rd.leaveOffset = none from hstay] at hleave
    cases hleave
  · refine hi.of_set rfl rfl rfl (by simp) ?_
    intro hstay
    rw [show rd.leaveOffset = none from hstay] at hleave
    cases hleave

theorem Delivered.step (hi : Delivered Q s) (h : Inv Q s) {a : Action} (hsound : Sound Q s a)
    (hfirst : PollsFirst s a) (htaken : Taken Q s a t) : Delivered Q t := by
  cases htaken with
  | join => exact hi.join
  | reserve => exact hi.reserve h hfirst
  | loadReadOffset hb =>
    simp only [loadReadOffset]
    split
    · exact hi
    · exact hi.write h (by rw [hb.2]; rfl)
  | @storeHeader b hb hst =>
    simp only [storeHeader]
    cases hstage : s.stage b.offset with
    | admitted => exact hi.write h (by rw [hstage]; rfl)
    | offsetStored => exact hi.write h (by rw [hstage]; rfl)
    | sizeStored => exact hi.write h (by rw [hstage]; rfl)
    | typeStored => exact hi.write h (by rw [hstage]; rfl)
    | _ => exact hi
  | finishSkip hb => exact hi.write h (by rw [hb.2]; rfl)
  | writeToBuffer hb => exact hi.write h (by rw [hb.2]; rfl)
  | abortBuffer hb => exact hi.write h (by rw [hb.2]; rfl)
  | poll hrd hpc => exact hi.pollHeader h hrd hpc (hsound _ hrd)
  | loadCommitFlag hrd hpc => exact hi.loadCommitFlag h hrd hpc (hsound _ hrd)
  | loadAbsOffset hrd hpc => exact hi.loadAbsOffset hrd hpc
  | loadSizeAndType hrd hpc => exact hi.loadSizeAndType h hrd hpc (hfirst _ hrd)
  | releaseHeld hrd hpc => exact hi.releaseHeld hrd hpc
  | releaseNext hrd hpc => exact absurd hpc (hfirst _ hrd)
  | fetchSub hrd hpc =>
    obtain ⟨b, hb⟩ := (h.reader _ (List.mem_of_getElem? hrd)).owns _ (Or.inr hpc)
    exact hi.fetchSub h hrd hpc hb
  | clearStep hrd hpc => exact hi.clearStep hrd hpc
  | leave hrd hpc =>
    refine hi.of_set rfl rfl leave_readers (by simp [Reader.leftAt]) ?_
    intro hstay
    cases hstay
  | drain hrd hleave hpc => exact hi.drain hleave

theorem Delivered.init : Delivered Q State.init := by
  constructor <;> simp [State.init]

/-! ### Every run -/

/-- What holds of a channel between any two steps. -/
structure ChannelInv (Q : RingSize) (s : State) : Prop where
  inv : Inv Q s
  delivered : Delivered Q s

theorem ChannelInv.init : ChannelInv Q State.init := ⟨.init, .init⟩

theorem ChannelInv.step (hi : ChannelInv Q s) {a : Action} (hok : ChannelRun Q s a)
    (hstep : MockExchange.step Q s a = some t) : ChannelInv Q t :=
  ⟨hi.inv.step hok.1 hstep, hi.delivered.step hi.inv hok.1 hok.2 (Taken.of_step hstep)⟩

theorem ChannelInv.of_run (hreach : Reach (MockExchange.step Q) (ChannelRun Q) State.init s) :
    ChannelInv Q s :=
  hreach.invariant .init fun _ _ _ hi hok hstep => hi.step hok hstep

end

end MockExchange
