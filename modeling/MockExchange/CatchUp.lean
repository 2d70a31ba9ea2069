import MockExchange.Delivery

/-!
# A reader catches up

Where every reservation is settled nothing keeps a reader from the write offset.
Whatever step it is at, its next step is enabled and either moves it over a
block or brings it closer to the `fetch_sub` that does.
-/

namespace MockExchange

open ByteMemory Tiling MessageHeader Transition ListUpdate

variable (Q : RingSize)

/-- Readers join, poll and release, and none closes; a poll acts on the settled
block at its reader's offset. -/
def StayingRun (s : State) : Action → Prop
  | .leave _ | .drain _ => False
  | .releaseStep _ => True
  | a => Sound Q s a

/-- The steps of reader `r` between its join and its close. -/
def Action.isReadBy (r : Nat) : Action → Prop
  | .poll r' | .loadCommitFlag r' | .loadAbsOffset r' | .loadSizeAndType r' | .callRelease r'
  | .releaseStep r' => r' = r
  | _ => False

/-- Reader `r` can reach the write offset by steps of its own. -/
def State.CanCatchUp (s : State) (r : Nat) : Prop :=
  ∃ t rd, Reach (step Q) (fun s a => a.isReadBy r ∧ StayingRun Q s a) s t ∧
    t.readers[r]? = some rd ∧ rd.absReadOffset = s.writeOffset

/-- How far a reader that stays is from its next `fetch_sub`. -/
def ReaderPc.distance : ReaderPc → Nat
  | .clearing .body _ _ => 9
  | .clearing .size _ _ => 8
  | .clearing .type _ _ => 7
  | .clearing .flag _ _ => 6
  | .clearing .advance _ _ => 5
  | .flagLoaded => 4
  | .offsetMatched => 3
  | .idle => 2
  | .holding _ => 1
  | _ => 0

/-- `t` is `s` with reader `r` one step further, from `rd` to `rd'`. -/
structure Advances (s : State) (r : Nat) (rd : Reader) (t : State) (rd' : Reader) : Prop where
  reader : t.readers[r]? = some rd'
  log : t.log = s.log
  stage : t.stage = s.stage
  writeOffset : t.writeOffset = s.writeOffset
  further : rd.absReadOffset < rd'.absReadOffset ∨
    rd'.absReadOffset = rd.absReadOffset ∧ rd'.pc.distance < rd.pc.distance

section

variable {Q} {s t : State} {r : Nat} {rd : Reader}

theorem StayingRun.sound {a : Action} (hok : StayingRun Q s a) (h : Inv Q s)
    (hstay : s.Staying) : Sound Q s a := by
  cases a with
  | releaseStep r =>
    intro rd hrd
    exact h.advancesTo hstay (List.mem_of_getElem? hrd)
  | leave => exact hok.elim
  | drain => exact hok.elim
  | _ => exact hok

theorem StayingRun.ne_leave {a : Action} (hok : StayingRun Q s a) (r : Nat) : a ≠ .leave r := by
  rintro rfl
  exact hok

theorem getElem?_set_reader (hrd : s.readers[r]? = some rd) (rd' : Reader) :
    (s.readers.set r rd')[r]? = some rd' := by
  simp [lt_of_getElem? hrd]

/-- The poll of an idle reader in front of a settled block does not come back
empty-handed. -/
theorem Inv.pollOutcome_of_settled (h : Inv Q s) (hrd : rd ∈ s.readers) (hpc : rd.pc = .idle)
    (hsettled : s.SettledAt rd.absReadOffset) :
    pollOutcome Q s.mem rd.absReadOffset ≠ .nullopt := by
  obtain ⟨b, hb, hoff, hst⟩ := hsettled
  rcases Stage.settled_iff.mp hst with hcommitted | haborted
  · exact h.pollOutcome_ne_nullopt hrd hpc ⟨b, hb, hoff, hcommitted⟩
  · have hstay := (h.reader rd hrd).staying (Or.inl hpc)
    rw [← hoff] at hst haborted ⊢
    have hp : rd.pending b.offset = true := by
      rw [Reader.pending_iff, hstay]
      exact ⟨by omega, by simp⟩
    have hflag := (h.header hrd hb hst hp).flag
    rw [haborted] at hflag
    change commitFlag s.mem (b.offset % Q.bytes) = CommitFlag.aborted.toByte at hflag
    simp only [pollOutcome, hflag]
    simp [CommitFlag.toByte]

theorem Advances.setPc (hrd : s.readers[r]? = some rd) {rd' : Reader} (asserts : Bool)
    (hoffset : rd'.absReadOffset = rd.absReadOffset) (hcloser : rd'.pc.distance < rd.pc.distance) :
    Advances s r rd { s with readers := s.readers.set r rd', assertsHold := asserts } rd' :=
  ⟨getElem?_set_reader hrd rd', rfl, rfl, rfl, Or.inr ⟨hoffset, hcloser⟩⟩

/-- What a poll that finds something makes of an idle reader. -/
theorem advances_pollHeader (hrd : s.readers[r]? = some rd) (hpc : rd.pc = .idle)
    (hout : pollOutcome Q s.mem rd.absReadOffset ≠ .nullopt) :
    ∃ rd', Advances s r rd (pollHeader Q s r rd) rd' := by
  simp only [pollHeader]
  cases hcase : pollOutcome Q s.mem rd.absReadOffset with
  | nullopt => exact absurd hcase hout
  | skipPadding => exact ⟨_, .setPc hrd _ rfl (by simp [hpc, ReaderPc.distance])⟩
  | skipAborted => exact ⟨_, .setPc hrd s.assertsHold rfl (by simp [hpc, ReaderPc.distance])⟩
  | wrapper => exact ⟨_, .setPc hrd _ rfl (by simp [hpc, ReaderPc.distance])⟩

theorem advances_loadSizeAndType (hrd : s.readers[r]? = some rd) (hpc : rd.pc = .offsetMatched) :
    ∃ rd', Advances s r rd (loadSizeAndType Q s r rd) rd' := by
  simp only [loadSizeAndType]
  split
  · exact ⟨_, .setPc hrd _ rfl (by simp [hpc, ReaderPc.distance])⟩
  · exact ⟨_, .setPc hrd _ rfl (by simp [hpc, ReaderPc.distance])⟩

/-- `fetch_sub` takes the reader to the end of the block in front of it. -/
theorem advances_fetchSub (h : Inv Q s) (hrd : s.readers[r]? = some rd) {hdr : Nat} {b : Block}
    (hb : Owns Q s rd hdr b) : ∃ rd', Advances s r rd (fetchSub Q s r rd hdr) rd' := by
  have hlen := (h.shape b hb.mem_log).length_ge
  have hend : rd.absReadOffset < b.finish := by
    rw [hb.position, Block.finish]
    omega
  rw [h.fetchSub_eq hrd hb]
  exact ⟨_, getElem?_set_reader hrd _, rfl, rfl, rfl, Or.inl hend⟩

theorem advances_clearStep (hrd : s.readers[r]? = some rd) (hstay : rd.leaveOffset = none)
    {step : ClearStep} {hdr total : Nat} (hpc : rd.pc = .clearing step hdr total) :
    ∃ rd', Advances s r rd (clearStep s r rd step hdr total) rd' := by
  obtain ⟨hlog, hstage, -, hwrite⟩ := clearStep_keeps s r rd step hdr total
  have hget : ∀ pc : ReaderPc, (s.readers.set r { rd with pc := pc })[r]? =
      some { rd with pc := pc } := fun pc => getElem?_set_reader hrd _
  cases step with
  | body => exact ⟨_, hget _, hlog, hstage, hwrite, Or.inr ⟨rfl, by simp [hpc, ReaderPc.distance]⟩⟩
  | size => exact ⟨_, hget _, hlog, hstage, hwrite, Or.inr ⟨rfl, by simp [hpc, ReaderPc.distance]⟩⟩
  | type => exact ⟨_, hget _, hlog, hstage, hwrite, Or.inr ⟨rfl, by simp [hpc, ReaderPc.distance]⟩⟩
  | flag => exact ⟨_, hget _, hlog, hstage, hwrite, Or.inr ⟨rfl, by simp [hpc, ReaderPc.distance]⟩⟩
  | advance =>
    have hafter : rd.afterRelease = .idle := by
      rw [Reader.afterRelease, hstay]
      rfl
    refine ⟨_, hget _, hlog, hstage, hwrite, Or.inr ⟨rfl, ?_⟩⟩
    simp [hpc, hafter, ReaderPc.distance]

/-- A reader behind the write offset has a step, and it leads on. -/
theorem exists_advance (h : Inv Q s) (hstay : s.Staying)
    (hsettled : ∀ b ∈ s.log, (s.stage b.offset).settled = true)
    (hrd : s.readers[r]? = some rd) (hbehind : rd.absReadOffset < s.writeOffset) :
    ∃ a t rd', (a.isReadBy r ∧ StayingRun Q s a) ∧ step Q s a = some t ∧
      Advances s r rd t rd' := by
  have hmem := List.mem_of_getElem? hrd
  have hr := h.reader rd hmem
  obtain ⟨b, hb, hoff⟩ := hr.boundary.exists_of_lt hbehind
  have hat : s.SettledAt rd.absReadOffset := ⟨b, hb, hoff, by rw [← hoff]; exact hsettled b hb⟩
  have hat' : ∀ rd' ∈ s.readers[r]?, s.SettledAt rd'.absReadOffset := by
    intro rd' hrd'
    rw [hrd] at hrd'
    cases hrd'
    exact hat
  have hnone := hstay rd hmem
  cases hpc : rd.pc with
  | idle =>
    obtain ⟨rd', hadvances⟩ := advances_pollHeader hrd hpc (h.pollOutcome_of_settled hmem hpc hat)
    have hstep : step Q s (.poll r) = some (pollHeader Q s r rd) := by
      simp [step, hrd, hpc]
    exact ⟨.poll r, _, rd', ⟨rfl, fun rd' hrd' _ => hat' rd' hrd'⟩, hstep, hadvances⟩
  | flagLoaded =>
    have hstep : step Q s (.loadAbsOffset r) = some (loadAbsOffset Q s r rd) := by
      simp [step, hrd, hpc]
    refine ⟨.loadAbsOffset r, _, _, ⟨rfl, trivial⟩, hstep, .setPc hrd s.assertsHold rfl ?_⟩
    rw [hpc]
    dsimp only
    split
    · simp [ReaderPc.distance]
    · simp [ReaderPc.distance]
  | offsetMatched =>
    have hstep : step Q s (.loadSizeAndType r) = some (loadSizeAndType Q s r rd) := by
      simp [step, hrd, hpc]
    obtain ⟨rd', hadvances⟩ := advances_loadSizeAndType hrd hpc
    exact ⟨.loadSizeAndType r, _, rd', ⟨rfl, hat'⟩, hstep, hadvances⟩
  | holding hdr =>
    have hstep : step Q s (.callRelease r) = some (callRelease s r rd hdr) := by
      simp [step, hrd, hpc]
    refine ⟨.callRelease r, _, _, ⟨rfl, fun rd' hrd' _ => hat' rd' hrd'⟩, hstep,
      .setPc hrd s.assertsHold rfl ?_⟩
    simp [hpc, ReaderPc.distance]
  | releaseCalled hdr =>
    have hstep : step Q s (.releaseStep r) = some (fetchSub Q s r rd hdr) := by
      simp [step, releaseStep, hrd, hpc, ReaderPc.isReleasing]
    obtain ⟨c, hc⟩ := hr.owns hdr (Or.inr hpc)
    obtain ⟨rd', hadvances⟩ := advances_fetchSub h hrd hc
    exact ⟨.releaseStep r, _, rd', ⟨rfl, trivial⟩, hstep, hadvances⟩
  | clearing cleared hdr total =>
    have hstep : step Q s (.releaseStep r) =
        some (clearStep s r rd cleared hdr total) := by
      simp [step, releaseStep, hrd, hpc, ReaderPc.isReleasing]
    obtain ⟨rd', hadvances⟩ := advances_clearStep hrd hnone hpc
    exact ⟨.releaseStep r, _, rd', ⟨rfl, trivial⟩, hstep, hadvances⟩
  | draining =>
    have hleft := hr.leaving (Or.inl hpc)
    rw [hnone] at hleft
    cases hleft
  | closed =>
    have hleft := hr.leaving (Or.inr hpc)
    rw [hnone] at hleft
    cases hleft

/-- Where everything is settled, every reader can reach the write offset. -/
theorem Inv.canCatchUp (h : Inv Q s) (hstay : s.Staying)
    (hsettled : ∀ b ∈ s.log, (s.stage b.offset).settled = true)
    (hrd : s.readers[r]? = some rd) : s.CanCatchUp Q r := by
  -- the steps left: over the blocks ahead first, then inside the program
  induction hn : (s.writeOffset - rd.absReadOffset) * 10 + rd.pc.distance
    using Nat.strong_induction_on generalizing s rd with
  | _ n ih =>
    subst hn
    have hle := (h.reader rd (List.mem_of_getElem? hrd)).boundary.le h.tiles
    by_cases hbehind : rd.absReadOffset < s.writeOffset
    · obtain ⟨a, t, rd', hok, hstep, hadvances⟩ := exists_advance h hstay hsettled hrd hbehind
      have h' := h.step (hok.2.sound h hstay) hstep
      have hstay' := hstay.step (Taken.of_step hstep).change hok.2.ne_leave
      have hle' := (h'.reader rd' (List.mem_of_getElem? hadvances.reader)).boundary.le h'.tiles
      rw [hadvances.writeOffset] at hle'
      have hcloser : (t.writeOffset - rd'.absReadOffset) * 10 + rd'.pc.distance <
          (s.writeOffset - rd.absReadOffset) * 10 + rd.pc.distance := by
        have hbound : rd'.pc.distance ≤ 9 := by
          cases rd'.pc with
          | clearing step => cases step <;> simp [ReaderPc.distance]
          | _ => simp [ReaderPc.distance]
        rw [hadvances.writeOffset]
        rcases hadvances.further with hfurther | ⟨hsame, hcloser⟩
        · omega
        · rw [hsame]
          omega
      have hsettled' : ∀ b ∈ t.log, (t.stage b.offset).settled = true := by
        rw [hadvances.log, hadvances.stage]
        exact hsettled
      obtain ⟨u, rd'', hreach, hget, hend⟩ :=
        ih _ hcloser h' hstay' hsettled' hadvances.reader rfl
      rw [hadvances.writeOffset] at hend
      exact ⟨u, rd'', ((Reach.refl s).next hok hstep).trans hreach, hget, hend⟩
    · exact ⟨s, rd, .refl s, hrd, by omega⟩

end

end MockExchange
