import MockExchange.Lib.Transition
import MockExchange.ReleaseSteps
import MockExchange.StepCases

/-!
# Sound runs

`Sound Q s a` is what the invariant needs of a step: the limits on readers and
reserved bytes, a counted reader for every reservation, and that whoever is
about to release a block has a settled one in front of it. Each group of runs
studied later has a guard of its own, and its steps are shown to be sound.
-/

namespace MockExchange

open ByteMemory Tiling MessageHeader Transition ListUpdate

/-- The block reserved at `p` was committed or aborted. -/
def State.SettledAt (s : State) (p : Nat) : Prop :=
  ∃ b ∈ s.log, b.offset = p ∧ (s.stage p).settled = true

def State.CommittedAt (s : State) (p : Nat) : Prop :=
  ∃ b ∈ s.log, b.offset = p ∧ s.stage p = .committed

instance (s : State) (p : Nat) : Decidable (s.SettledAt p) := by
  unfold State.SettledAt; infer_instance

instance (s : State) (p : Nat) : Decidable (s.CommittedAt p) := by
  unfold State.CommittedAt; infer_instance

theorem State.CommittedAt.settledAt {s : State} {p : Nat} (h : s.CommittedAt p) :
    s.SettledAt p := by
  obtain ⟨b, hb, hoff, hst⟩ := h
  exact ⟨b, hb, hoff, by rw [hst]; rfl⟩

/-- The readers that have joined and not left. -/
def State.activeReaders (s : State) : Nat := s.readers.countP Reader.active

variable (Q : RingSize)

/-- What `wait_for_next_write_offset` and `write_to_buffer` take for granted. -/
def State.MayReserve (s : State) (size : Nat) (data : List UInt8) : Prop :=
  data.length ≤ size ∧ 0 < s.activeReaders ∧ (newBlock Q s size data).finish < 2 ^ 56

instance (s : State) (size : Nat) (data : List UInt8) : Decidable (s.MayReserve Q size data) := by
  unfold State.MayReserve; infer_instance

/-- The drain loop goes on over a committed block before the leave's offset, and
stops at that offset. -/
def State.DrainsExactly (s : State) (rd : Reader) (absWriteOffset : Nat) : Prop :=
  if rd.absReadOffset < absWriteOffset then s.CommittedAt rd.absReadOffset
  else commitFlag s.mem (rd.absReadOffset % Q.bytes) ≠ CommitFlag.readyForConsumer.toByte

instance (s : State) (rd : Reader) (e : Nat) : Decidable (s.DrainsExactly Q rd e) := by
  unfold State.DrainsExactly; infer_instance

/-- The addition to `read_offset` reaches the reader's own offset. -/
def State.AdvancesTo (s : State) (rd : Reader) : Prop :=
  match rd.pc with
  | .clearing .advance _ totalMessageLen => s.readOffset + totalMessageLen = rd.absReadOffset
  | _ => True

instance (s : State) (rd : Reader) : Decidable (s.AdvancesTo rd) := by
  unfold State.AdvancesTo; split <;> infer_instance

/-- The header a poll acts on belongs to the block at the reader's offset. -/
def State.PollsSettled (s : State) (rd : Reader) : Prop :=
  pollOutcome Q s.mem rd.absReadOffset ≠ .nullopt → s.SettledAt rd.absReadOffset

instance (s : State) (rd : Reader) : Decidable (s.PollsSettled Q rd) := by
  unfold State.PollsSettled; infer_instance

/-- The guard under which every step keeps `Inv`. -/
def Sound (s : State) : Action → Prop
  | .join => s.activeReaders < 255
  | .reserve size data => s.MayReserve Q size data
  | .poll r => ∀ rd ∈ s.readers[r]?, s.PollsSettled Q rd
  | .loadCommitFlag r => ∀ rd ∈ s.readers[r]?,
    commitFlag s.mem (rd.absReadOffset % Q.bytes) = CommitFlag.aborted.toByte →
      s.SettledAt rd.absReadOffset
  | .loadSizeAndType r => ∀ rd ∈ s.readers[r]?, s.SettledAt rd.absReadOffset
  | .callRelease r => ∀ rd ∈ s.readers[r]?, rd.pc = .idle → s.SettledAt rd.absReadOffset
  | .releaseStep r => ∀ rd ∈ s.readers[r]?, s.AdvancesTo rd
  | .drain r => ∀ rd ∈ s.readers[r]?, ∀ e ∈ rd.leaveOffset, s.DrainsExactly Q rd e
  | _ => True

section

variable {Q} {s t : State} {b : Block} {r : Nat} {rd : Reader}

/-- The empty queue of `init_new_file`. -/
theorem Inv.init : Inv Q State.init where
  tiles := by
    change 0 = State.init.writeOffset
    rfl
  word := Packs.zero
  shape := by simp [State.init]
  counted := by simp [State.init]
  room := by
    have := Q.ge_64
    change 0 % Q.bytes + 18 ≤ Q.bytes
    rw [Nat.zero_mod]
    omega
  mark := Or.inl rfl
  window := by simp [State.init]
  owed := by simp [State.init]
  reader := by simp [State.init]
  unsettled := by simp [State.init]
  block := by simp [State.init]
  cleared := by simp [State.init]
  one_clears := by simp [State.init]
  asserts := rfl

/-- A reader with a settled block at its offset owns that block. -/
theorem Reader.owns (hsettled : s.SettledAt rd.absReadOffset)
    (hlimit : ∀ e, rd.leaveOffset = some e → rd.absReadOffset < e) :
    ∃ b, Owns Q s rd (rd.absReadOffset % Q.bytes) b := by
  obtain ⟨b, hb, hoff, hst⟩ := hsettled
  rw [← hoff] at hst ⊢
  refine ⟨b, hb, rfl, hoff.symm, hst, ?_⟩
  rw [Reader.pending_iff]
  refine ⟨by omega, fun e he => ?_⟩
  have := hlimit e he
  omega

theorem Inv.owns_of_staying (h : Inv Q s) (hrd : s.readers[r]? = some rd)
    (hpc : rd.pc = .idle ∨ rd.pc = .flagLoaded ∨ rd.pc = .offsetMatched)
    (hsettled : s.SettledAt rd.absReadOffset) :
    ∃ b, Owns Q s rd (rd.absReadOffset % Q.bytes) b := by
  have hstay := (h.reader rd (List.mem_of_getElem? hrd)).staying hpc
  apply Reader.owns hsettled
  intro e he
  rw [hstay] at he
  cases he

theorem Reader.not_isClearing_of_poll
    (hpc : rd.pc = .idle ∨ rd.pc = .flagLoaded ∨ rd.pc = .offsetMatched) : ¬ rd.isClearing := by
  rintro ⟨step, hdr, total, hclear⟩
  rw [hclear] at hpc
  simp at hpc

/-- The assertion of `poll_buffer` holds on a settled block. -/
theorem Inv.assertFits_eq (h : Inv Q s) (hrd : rd ∈ s.readers) {hdr : Nat}
    (howns : Owns Q s rd hdr b) : assertFits Q s hdr = s := by
  have hheader := h.header hrd howns.mem_log howns.settled howns.pending
  have hfits := (h.shape b howns.mem_log).fits
  have hle : b.length ≤ Q.bytes := by omega
  rw [howns.hdr_eq]
  simp only [assertFits, hheader.total, hle, decide_true, Bool.and_true]

theorem Inv.pollHeader (h : Inv Q s) (hrd : s.readers[r]? = some rd) (hpc : rd.pc = .idle)
    (hsettled : s.PollsSettled Q rd) : Inv Q (pollHeader Q s r rd) := by
  have hnot := Reader.not_isClearing_of_poll (Or.inl hpc)
  simp only [MockExchange.pollHeader]
  cases hout : pollOutcome Q s.mem rd.absReadOffset with
  | nullopt => exact h
  | skipPadding =>
    obtain ⟨b, hb⟩ := h.owns_of_staying hrd (Or.inl hpc) (hsettled (by simp [hout]))
    simp only [h.assertFits_eq (List.mem_of_getElem? hrd) hb]
    exact h.callRelease hrd hnot hb
  | skipAborted =>
    obtain ⟨b, hb⟩ := h.owns_of_staying hrd (Or.inl hpc) (hsettled (by simp [hout]))
    exact h.callRelease hrd hnot hb
  | wrapper =>
    obtain ⟨b, hb⟩ := h.owns_of_staying hrd (Or.inl hpc) (hsettled (by simp [hout]))
    simp only [h.assertFits_eq (List.mem_of_getElem? hrd) hb]
    exact h.handOut hrd hnot hb

theorem Inv.loadCommitFlag (h : Inv Q s) (hrd : s.readers[r]? = some rd) (hpc : rd.pc = .idle)
    (hsettled : commitFlag s.mem (rd.absReadOffset % Q.bytes) = CommitFlag.aborted.toByte →
      s.SettledAt rd.absReadOffset) : Inv Q (loadCommitFlag Q s r rd) := by
  simp only [MockExchange.loadCommitFlag]
  split
  · exact h.pollPc hrd (Or.inl hpc) (by simp)
  · split
    · rename_i haborted
      obtain ⟨b, hb⟩ := h.owns_of_staying hrd (Or.inl hpc) (hsettled haborted)
      exact h.callRelease hrd (Reader.not_isClearing_of_poll (Or.inl hpc)) hb
    · exact h

theorem Inv.loadAbsOffset (h : Inv Q s) (hrd : s.readers[r]? = some rd)
    (hpc : rd.pc = .flagLoaded) : Inv Q (loadAbsOffset Q s r rd) := by
  apply h.pollPc hrd (Or.inr (Or.inl hpc))
  split
  · exact Or.inl rfl
  · exact Or.inr (Or.inr rfl)

theorem Inv.loadSizeAndType (h : Inv Q s) (hrd : s.readers[r]? = some rd)
    (hpc : rd.pc = .offsetMatched) (hsettled : s.SettledAt rd.absReadOffset) :
    Inv Q (loadSizeAndType Q s r rd) := by
  have hpoll : rd.pc = .idle ∨ rd.pc = .flagLoaded ∨ rd.pc = .offsetMatched := Or.inr (Or.inr hpc)
  have hnot := Reader.not_isClearing_of_poll hpoll
  obtain ⟨b, hb⟩ := h.owns_of_staying hrd hpoll hsettled
  simp only [MockExchange.loadSizeAndType, h.assertFits_eq (List.mem_of_getElem? hrd) hb]
  split
  · exact h.callRelease hrd hnot hb
  · exact h.handOut hrd hnot hb

theorem Inv.drain (h : Inv Q s) (hrd : s.readers[r]? = some rd) (hpc : rd.pc = .draining)
    {e : Nat} (hleave : rd.leaveOffset = some e) (hexact : s.DrainsExactly Q rd e) :
    Inv Q (drain Q s r rd e) := by
  have hr := h.reader rd (List.mem_of_getElem? hrd)
  have hle := (hr.limit e hleave).1
  have hnot : ¬ rd.isClearing := Reader.not_isClearing_of_pc hpc (by simp)
  simp only [State.DrainsExactly] at hexact
  simp only [MockExchange.drain]
  by_cases hlt : rd.absReadOffset < e
  · rw [if_pos hlt] at hexact
    have hlimit : ∀ e', rd.leaveOffset = some e' → rd.absReadOffset < e' := by
      intro e' he'
      rw [hleave] at he'
      cases he'
      exact hlt
    obtain ⟨b, hb⟩ := Reader.owns (Q := Q) hexact.settledAt hlimit
    have hheader := h.header (List.mem_of_getElem? hrd) hb.mem_log hb.settled hb.pending
    obtain ⟨-, -, -, hst⟩ := hexact
    have hflag := hheader.flag
    rw [← hb.position, hst, ← hb.hdr_eq] at hflag
    rw [if_pos ⟨hle, hflag⟩]
    exact h.callRelease hrd hnot hb
  · rw [if_neg hlt] at hexact
    have hend : rd.absReadOffset = e := by omega
    rw [if_neg (fun hboth => hexact hboth.2)]
    exact h.close hrd hpc (by rw [hleave, hend])

/-! ### Sound steps -/

/-- **Every sound step keeps the invariant.** -/
theorem Inv.step (h : Inv Q s) {a : Action} (hsound : Sound Q s a)
    (hstep : step Q s a = some t) : Inv Q t := by
  cases Taken.of_step hstep with
  | join =>
    have hroom : s.readers.countP Reader.active < 255 := hsound
    exact h.join (by omega)
  | reserve hpos hle => exact h.reserve hpos hle hsound.1 hsound.2.1 hsound.2.2
  | loadReadOffset hb => exact h.loadReadOffset hb
  | storeHeader hb hst => exact h.storeHeader hb hst
  | finishSkip hb hpad => exact h.finishSkip hb hpad
  | writeToBuffer hb hpad => exact h.writeToBuffer hb hpad
  | abortBuffer hb => exact h.abortBuffer hb
  | poll hrd hpc => exact h.pollHeader hrd hpc (hsound _ hrd)
  | loadCommitFlag hrd hpc => exact h.loadCommitFlag hrd hpc (hsound _ hrd)
  | loadAbsOffset hrd hpc => exact h.loadAbsOffset hrd hpc
  | loadSizeAndType hrd hpc => exact h.loadSizeAndType hrd hpc (hsound _ hrd)
  | releaseHeld hrd hpc =>
    obtain ⟨b, hb⟩ := (h.reader _ (List.mem_of_getElem? hrd)).owns _ (Or.inl hpc)
    exact h.callRelease hrd (Reader.not_isClearing_of_pc hpc (by simp)) hb
  | releaseNext hrd hpc =>
    obtain ⟨b, hb⟩ := h.owns_of_staying hrd (Or.inl hpc) (hsound _ hrd hpc)
    exact h.callRelease hrd (Reader.not_isClearing_of_pc hpc (by simp)) hb
  | fetchSub hrd hpc =>
    obtain ⟨b, hb⟩ := (h.reader _ (List.mem_of_getElem? hrd)).owns _ (Or.inr hpc)
    exact h.fetchSub hrd hpc hb
  | @clearStep _ _ _ rd step hrd hpc =>
    obtain ⟨b, hb⟩ := (h.reader _ (List.mem_of_getElem? hrd)).clearing _ _ _ hpc
    by_cases hadvance : step = .advance
    · subst hadvance
      have hto := hsound _ hrd
      simp only [State.AdvancesTo, hpc, hb.passed, hb.total_eq, Block.finish] at hto
      exact h.advance hrd hpc hb (by omega)
    · exact h.clearBlock hrd hpc hb hadvance
  | leave hrd hpc => exact h.leave hrd hpc
  | drain hrd hleave hpc => exact h.drain hrd hpc hleave (hsound _ hrd _ hleave)

end

end MockExchange
