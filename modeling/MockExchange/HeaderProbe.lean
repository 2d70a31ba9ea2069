import MockExchange.FreeBytes

/-!
# What a reader takes for a header

`poll_buffer` looks at the 18 bytes behind the last block a reader released,
whether a writer has come out of the wait loop there or not. Admission keeps a
writer's block within one ring of the watermark but leaves no room for that
header, so a reader that has caught up on a nearly full ring may look into a
block a slower reader still needs. It does not where the watermark is exactly one
ring behind the reader or at least a header's length ahead of that.
-/

namespace MockExchange

open Tiling MessageHeader Transition ListUpdate

/-- The bytes a caught-up reader takes for a header are the oldest live block's
own header, or they are free. -/
def State.RoomForProbe (Q : RingSize) (s : State) (absReadOffset : Nat) : Prop :=
  s.readOffset + Q.bytes = absReadOffset ∨
    absReadOffset + sizeofMessageHeader ≤ s.readOffset + Q.bytes

instance (Q : RingSize) (s : State) (absReadOffset : Nat) :
    Decidable (s.RoomForProbe Q absReadOffset) := by
  unfold State.RoomForProbe; infer_instance

/-- No writer whose reservation starts at `absReadOffset` is past the wait loop. -/
def State.NoneAdmittedAt (s : State) (absReadOffset : Nat) : Prop :=
  ∀ b ∈ s.log, b.offset = absReadOffset → s.stage b.offset = .waiting

instance (s : State) (absReadOffset : Nat) : Decidable (s.NoneAdmittedAt absReadOffset) := by
  unfold State.NoneAdmittedAt; infer_instance

/-- A release that takes the reader to where nothing is admitted yet finds room
there. -/
def State.CatchesUpWithRoom (Q : RingSize) (s : State) (rd : Reader) : Prop :=
  match rd.pc with
  | .releaseCalled hdr =>
    let absReadOffset := add64 rd.absReadOffset (messageSize s.mem hdr + sizeofMessageHeader)
    s.NoneAdmittedAt absReadOffset → s.RoomForProbe Q absReadOffset
  | _ => True

instance (Q : RingSize) (s : State) (rd : Reader) : Decidable (s.CatchesUpWithRoom Q rd) := by
  apply Reader.casesOn (motive := fun rd => Decidable (s.CatchesUpWithRoom Q rd)) rd
  intro _ _ _ pc _ _ _
  refine pc.casesOn ?_ ?_ ?_ ?_ ?_ ?_ ?_ ?_ <;> intros <;>
    dsimp only [State.CatchesUpWithRoom] <;> infer_instance

def RoomyReleases (Q : RingSize) (s : State) : Action → Prop
  | .releaseStep r => ∀ rd ∈ s.readers[r]?, s.CatchesUpWithRoom Q rd
  | _ => True

instance (Q : RingSize) (s : State) (a : Action) : Decidable (RoomyReleases Q s a) := by
  apply Action.casesOn (motive := fun a => Decidable (RoomyReleases Q s a)) a <;> intros <;>
    dsimp only [RoomyReleases] <;> infer_instance

/-- Every reader joins before the first claim. -/
def FixedReaders (Q : RingSize) (s : State) (a : Action) : Prop :=
  ReleasesInOrder Q s a ∧ (a = .join → s.log = [])

instance (Q : RingSize) (s : State) (a : Action) : Decidable (FixedReaders Q s a) := by
  unfold FixedReaders; infer_instance

/-- What the reader takes for a header is that of a block whose writer is past
the wait loop, or it meets no block that is admitted and not yet released, other
than the header of the block one ring behind. -/
def Reader.ProbesClear (Q : RingSize) (s : State) (rd : Reader) : Prop :=
  (∃ b ∈ s.log, b.offset = rd.absReadOffset ∧ s.stage b.offset ≠ .waiting) ∨
    ∀ b ∈ s.log, s.stage b.offset ≠ .waiting → ¬ s.Released b.offset →
      b.Avoids Q (rd.absReadOffset % Q.bytes) sizeofMessageHeader ∨
        b.offset + Q.bytes = rd.absReadOffset

section

variable {Q : RingSize} {s t : State} {a : Action} {rd : Reader}

/-- Every reader in front of which nothing is admitted has room for its probe. -/
def State.ProbesHaveRoom (Q : RingSize) (s : State) : Prop :=
  ∀ rd ∈ s.readers, s.NoneAdmittedAt rd.absReadOffset → s.RoomForProbe Q rd.absReadOffset

/-- A block behind the probe that is not released yet lies between the watermark
and the reader, so with room behind the reader it lies elsewhere in the ring. -/
theorem Inv.avoids_probe_of_lt (h : Inv Q s) (hroom : s.RoomForProbe Q rd.absReadOffset)
    (hbound : Boundary Block.offset s.log s.writeOffset rd.absReadOffset) {b : Block}
    (hb : b ∈ s.log) (hlive : s.readOffset ≤ b.offset) (hlt : b.offset < rd.absReadOffset) :
    b.Avoids Q (rd.absReadOffset % Q.bytes) sizeofMessageHeader ∨
      b.offset + Q.bytes = rd.absReadOffset := by
  have hfinish := h.tiles.end_le_boundary hb hbound hlt
  rcases hroom with hlap | hfree
  · rcases Nat.eq_or_lt_of_le hlive with heq | hlater
    · exact Or.inr (by omega)
    · -- the probe is the header of the block at the watermark
      obtain ⟨c, hc, hcoff⟩ := h.mark.exists_of_lt (by have := h.offset_lt hb; omega)
      have hclen := (h.shape c hc).length_ge
      have hne : b ≠ c := by
        rintro rfl
        omega
      have hcfinish := h.finish_le_of_lt hc hb (by omega)
      have hcells := h.ring_disjoint (b := b) (c := c) hb hc hne hlive hcoff.ge
        (by unfold Block.finish; omega) (by omega)
      have hprobe : rd.absReadOffset % Q.bytes = c.hdr Q := by
        rw [← hlap, Nat.add_mod_right, Block.hdr, hcoff]
      left
      unfold Block.Avoids sizeofMessageHeader
      rw [hprobe]
      omega
  · left
    exact (Tiling.ring_disjoint hlive hfinish hfree).symm

/-- A block ahead of the probe was admitted within a ring of the watermark, which
leaves room for the waiting block between them. -/
theorem Inv.avoids_probe_of_gt (h : Inv Q s) (hroom : s.RoomForProbe Q rd.absReadOffset)
    (hbound : Boundary Block.offset s.log s.writeOffset rd.absReadOffset)
    (hnone : s.NoneAdmittedAt rd.absReadOffset) {b : Block} (hb : b ∈ s.log)
    (hadmitted : s.stage b.offset ≠ .waiting) (hgt : rd.absReadOffset < b.offset) :
    b.Avoids Q (rd.absReadOffset % Q.bytes) sizeofMessageHeader := by
  have hlen := (h.shape b hb).length_ge
  have hwindow := h.window b hb hadmitted
  unfold Block.finish at hwindow
  rcases hroom with hlap | -
  · omega
  · obtain ⟨c, hc, hcoff⟩ := hbound.exists_of_lt (by have := h.offset_lt hb; omega)
    have hwaits := hnone c hc hcoff
    have hclen := (h.shape c hc).length_ge
    have hclive := (h.live_of_unsettled hc (by rw [hwaits]; rfl)).1
    have hcfinish := h.finish_le_of_lt hc hb (by omega)
    unfold Block.finish at hcfinish
    unfold Block.Avoids sizeofMessageHeader
    exact Tiling.ring_disjoint (r := s.readOffset) (by omega) (by omega) hwindow

theorem Inv.probesClear (h : Inv Q s) (hroom : s.ProbesHaveRoom Q) (hrd : rd ∈ s.readers) :
    rd.ProbesClear Q s := by
  have hbound := (h.reader rd hrd).boundary
  by_cases hnone : s.NoneAdmittedAt rd.absReadOffset
  · right
    intro b hb hadmitted hnot
    have hlive : s.readOffset ≤ b.offset := by
      by_contra hlt
      exact hnot (h.released_of_lt hb (by omega))
    have hprobe := hroom rd hrd hnone
    rcases Nat.lt_trichotomy b.offset rd.absReadOffset with hlt | heq | hgt
    · exact h.avoids_probe_of_lt hprobe hbound hb hlive hlt
    · exact absurd (hnone b hb heq) hadmitted
    · exact Or.inl (h.avoids_probe_of_gt hprobe hbound hnone hb hadmitted hgt)
  · left
    simp only [State.NoneAdmittedAt, not_forall] at hnone
    obtain ⟨b, hb, hoff, hadmitted⟩ := hnone
    exact ⟨b, hb, hoff, hadmitted⟩

theorem State.ProbesHaveRoom.init : State.init.ProbesHaveRoom Q := by
  intro rd hrd
  cases hrd

/-- A clearing step moves the watermark only forward, by at least a header. -/
theorem Inv.readOffset_clearStep (h : Inv Q s) (hstay : s.Staying) {r : Nat}
    (hrd : s.readers[r]? = some rd) {step : ClearStep} {hdr total : Nat}
    (hpc : rd.pc = .clearing step hdr total) :
    (clearStep s r rd step hdr total).readOffset = s.readOffset ∨
      s.readOffset + 18 ≤ (clearStep s r rd step hdr total).readOffset := by
  cases step with
  | advance =>
    right
    have hadvances := h.advancesTo hstay (List.mem_of_getElem? hrd)
    obtain ⟨b, hb⟩ := (h.reader rd (List.mem_of_getElem? hrd)).clearing _ _ _ hpc
    have hlen := (h.shape b hb.mem_log).length_ge
    have hlive := hb.live
    have hpassed := hb.passed
    simp only [State.AdvancesTo, hpc] at hadvances
    have hlt := h.finish_lt hb.mem_log
    change _ ≤ add64 s.readOffset total
    rw [add64, hadvances, Nat.mod_eq_of_lt (by omega)]
    unfold Block.finish at hpassed
    omega
  | body => exact Or.inl rfl
  | size => exact Or.inl rfl
  | type => exact Or.inl rfl
  | flag => exact Or.inl rfl

/-- No step puts a writer back into the wait loop. -/
theorem Inv.noneAdmittedAt_of_step (h : Inv Q s) (htaken : Taken Q s a t) {absReadOffset : Nat}
    (hnone : t.NoneAdmittedAt absReadOffset) : s.NoneAdmittedAt absReadOffset := by
  intro b hb hoff
  -- the stage of another block is kept, the writer of its own waits no more
  have hwrite : ∀ (c : Block) (stage : Stage), stage ≠ .waiting → t.log = s.log →
      t.stage = Function.update s.stage c.offset stage → s.stage b.offset = .waiting := by
    intro c stage hstage hlog hupdate
    have hstays := hnone b (by rw [hlog]; exact hb) hoff
    rw [hupdate] at hstays
    by_cases hbc : b.offset = c.offset
    · rw [hbc, Function.update_self] at hstays
      exact absurd hstays hstage
    · rwa [Function.update_of_ne hbc] at hstays
  have hkept : t.log = s.log → t.stage = s.stage → s.stage b.offset = .waiting := by
    intro hlog hstage
    rw [← hstage]
    exact hnone b (by rw [hlog]; exact hb) hoff
  by_cases hlocal : a.isLocal = true
  · have hshared := htaken.sameShared hlocal
    exact hkept hshared.log hshared.stage
  cases htaken with
  | @reserve size data =>
    have hstays := hnone b (by simp [reserve_log, hb]) hoff
    have hne : b.offset ≠ s.writeOffset := by
      have := h.offset_lt hb
      omega
    simp only [MockExchange.reserve, newBlock, Function.update_of_ne hne] at hstays
    exact hstays
  | @loadReadOffset c hc =>
    by_cases hmust : mustWait Q s c = true
    · simp only [MockExchange.loadReadOffset, hmust, if_true] at hkept
      exact hkept trivial trivial
    · refine hwrite c .admitted (by decide) ?_ ?_
      · simp [MockExchange.loadReadOffset, hmust, State.setStage]
      · simp [MockExchange.loadReadOffset, hmust, State.setStage]
  | @storeHeader c hc hst =>
    cases hstage : s.stage c.offset with
    | admitted =>
      simp only [MockExchange.storeHeader, hstage] at hwrite
      exact hwrite c .offsetStored (by decide) rfl rfl
    | offsetStored =>
      simp only [MockExchange.storeHeader, hstage] at hwrite
      exact hwrite c .sizeStored (by decide) rfl rfl
    | sizeStored =>
      simp only [MockExchange.storeHeader, hstage] at hwrite
      exact hwrite c .typeStored (by decide) rfl rfl
    | typeStored =>
      simp only [MockExchange.storeHeader, hstage] at hwrite
      exact hwrite c .claimed (by decide) rfl rfl
    | _ => simp [hstage, Stage.isWritingHeader] at hst
  | @finishSkip c => exact hwrite c .committed (by decide) rfl rfl
  | @writeToBuffer c => exact hwrite c .committed (by decide) rfl rfl
  | @abortBuffer c => exact hwrite c .aborted (by decide) rfl rfl
  | fetchSub => exact hkept rfl rfl
  | @clearStep r hdr total rd step =>
    obtain ⟨hlog, hstage, -⟩ := clearStep_keeps s r rd step hdr total
    exact hkept hlog hstage
  | _ => exact absurd rfl hlocal

theorem State.ProbesHaveRoom.step (hi : s.ProbesHaveRoom Q) (h : Inv Q s) (h' : Inv Q t)
    (hstay : s.Staying) (hfixed : a = .join → s.log = []) (hnot : ∀ r, a ≠ .leave r)
    (hok : RoomyReleases Q s a) (htaken : Taken Q s a t) : t.ProbesHaveRoom Q := by
  have hback : ∀ absReadOffset, t.NoneAdmittedAt absReadOffset →
      s.NoneAdmittedAt absReadOffset := fun _ => h.noneAdmittedAt_of_step htaken
  have hchange := htaken.change
  clear htaken
  cases hchange with
  | join =>
    have hQ := Q.ge_64
    intro rd hrd _
    have htiles := h'.tiles
    change Tiles _ _ _ s.log _ at htiles
    rw [hfixed rfl] at htiles
    have hwrite : 0 = (MockExchange.join s).writeOffset := htiles
    have hle := (h'.reader rd hrd).boundary.le h'.tiles
    right
    unfold sizeofMessageHeader
    omega
  | reserve => exact fun rd hrd hnone => hi rd hrd (hback _ hnone)
  | write => exact fun rd hrd hnone => hi rd hrd (hback _ hnone)
  | move hrd hsame =>
    apply forall_mem_set fun rd hrd hnone => hi rd hrd (hback _ hnone)
    intro hnone
    rw [hsame.absReadOffset] at hnone ⊢
    exact hi _ (List.mem_of_getElem? hrd) (hback _ hnone)
  | fetchSub hrd hpc =>
    apply forall_mem_set fun rd hrd hnone => hi rd hrd (hback _ hnone)
    have hroom := hok _ hrd
    simp only [State.CatchesUpWithRoom, hpc] at hroom
    exact fun hnone => hroom (hback _ hnone)
  | @clearStep r hdr total rd step hrd hpc =>
    obtain ⟨pc, hreaders⟩ := clearStep_readers s r rd step hdr total
    have hmark := h.readOffset_clearStep hstay hrd hpc
    intro rd' hrd' hnone
    have hroom : s.RoomForProbe Q rd'.absReadOffset := by
      rw [hreaders] at hrd'
      rcases List.mem_or_eq_of_mem_set hrd' with hold | rfl
      · exact hi rd' hold (hback _ hnone)
      · exact hi rd (List.mem_of_getElem? hrd) (hback _ hnone)
    unfold State.RoomForProbe sizeofMessageHeader at hroom ⊢
    omega
  | leave => exact absurd rfl (hnot _)

theorem invariant_of_fixedReaders
    (hreach : Reach (step Q) (fun s a => FixedReaders Q s a ∧ RoomyReleases Q s a) State.init s) :
    Inv Q s ∧ s.Staying ∧ s.ProbesHaveRoom Q := by
  have hinit : Inv Q State.init ∧ State.init.Staying ∧ State.init.ProbesHaveRoom Q :=
    ⟨.init, by simp [State.Staying, State.init], .init⟩
  refine hreach.invariant (P := fun s => Inv Q s ∧ s.Staying ∧ s.ProbesHaveRoom Q) hinit ?_
  rintro s a t ⟨h, hstay, hroom⟩ ⟨⟨hreleases, hfixed⟩, hok⟩ hstep
  have hchange := (Taken.of_step hstep).change
  have h' := h.step (hreleases.sound h hstay) hstep
  have hnot : ∀ r, a ≠ .leave r := by
    rintro r rfl
    exact hreleases
  exact ⟨h', hstay.step hchange hnot,
    hroom.step h h' hstay hfixed hnot hok (Taken.of_step hstep)⟩

/-- Where every reader that gets to an offset with nothing admitted finds room, no
probe meets a block that somebody still needs. -/
theorem header_probe_clear
    (hreach : Reach (step Q) (fun s a => FixedReaders Q s a ∧ RoomyReleases Q s a) State.init s)
    (hrd : rd ∈ s.readers) : rd.ProbesClear Q s := by
  obtain ⟨h, -, hroom⟩ := invariant_of_fixedReaders hreach
  exact h.probesClear hroom hrd

end

/-- Of two readers the first has read the only message, the second has not, and
the writer of the next one still waits. -/
theorem header_probe_clear_behind_one : ∃ (s : State) (rd : Reader), rd ∈ s.readers ∧
    rd.absReadOffset = 20 ∧ s.writeOffset = 40 ∧ s.NoneAdmittedAt 20 ∧ ¬ s.Released 0 ∧
      rd.ProbesClear .smallest s := by
  let b : Block := ⟨0, 20, 2, 2, []⟩
  let labels : List Action :=
    [.join, .join, .reserve 2 [], .loadReadOffset b, .storeHeader b, .storeHeader b,
      .storeHeader b, .storeHeader b, .writeToBuffer b, .callRelease 0, .reserve 2 [],
      .releaseStep 0]
  have hexec : (exec (step .smallest)
      (fun s a => FixedReaders .smallest s a ∧ RoomyReleases .smallest s a) State.init
      labels).any (fun s => decide ((∃ rd ∈ s.readers, rd.absReadOffset = 20) ∧
        s.writeOffset = 40 ∧ s.NoneAdmittedAt 20 ∧
        ∃ rd ∈ s.readers, rd.countedIn 0 = true ∧ rd.decremented = [])) = true := by
    decide +kernel
  obtain ⟨s, hrun, hs⟩ := exists_run_of_exec hexec
  obtain ⟨⟨rd, hrd, hoff⟩, hwrite, hwaits, slow, hslow, hcounted, hnone⟩ := of_decide_eq_true hs
  refine ⟨s, rd, hrd, hoff, hwrite, hwaits, ?_, header_probe_clear ⟨labels, hrun⟩ hrd⟩
  intro hreleased
  have hmem := (hreleased slow hslow hcounted).1
  rw [hnone] at hmem
  cases hmem

/-- Messages of 2 and 1 bytes, a skip message and one more byte in a ring of 64
bytes: the fast reader is at 83 and takes bytes 19 to 36 for a header, the slow
one still needs the block in bytes 20 to 38. -/
theorem header_probe_overlaps : ∃ s, Reach (step .smallest) (FixedReaders .smallest) State.init s ∧
    ∃ rd ∈ s.readers, rd.absReadOffset = 83 ∧ ¬ rd.ProbesClear .smallest s := by
  let b : Block := ⟨0, 20, 2, 2, []⟩
  let c : Block := ⟨20, 19, 1, 2, []⟩
  let pad : Block := ⟨39, 25, 8, 2, []⟩
  let d : Block := ⟨64, 19, 1, 2, []⟩
  let store (b : Block) : List Action :=
    [.loadReadOffset b, .storeHeader b, .storeHeader b, .storeHeader b, .storeHeader b]
  let labels : List Action :=
    [.join, .join, .reserve 2 [], .reserve 1 [], .reserve 8 [], .reserve 1 []] ++
      store b ++ [.writeToBuffer b] ++ store c ++ [.writeToBuffer c] ++ store pad ++
      [.finishSkip pad, .callRelease 0, .releaseStep 0] ++
      .callRelease 1 :: List.replicate 6 (.releaseStep 1) ++ store d ++ [.writeToBuffer d] ++
      [.callRelease 0, .releaseStep 0, .callRelease 0, .releaseStep 0, .callRelease 0,
        .releaseStep 0]
  have hexec : (exec (step .smallest) (FixedReaders .smallest) State.init labels).any
      (fun s => decide (s.log = [b, c, pad, d] ∧ s.stage 20 = .committed ∧
        (∃ rd ∈ s.readers, rd.absReadOffset = 83) ∧
        ∃ rd ∈ s.readers, rd.countedIn 20 = true ∧ rd.decremented = [0])) = true := by
    decide +kernel
  obtain ⟨s, hrun, hs⟩ := exists_run_of_exec hexec
  obtain ⟨hlog, hstage, ⟨rd, hrd, hoff⟩, slow, hslow, hcounted, hdec⟩ := of_decide_eq_true hs
  refine ⟨s, ⟨labels, hrun⟩, rd, hrd, hoff, ?_⟩
  have hnot : ¬ s.Released 20 := by
    intro hreleased
    have hmem := (hreleased slow hslow hcounted).1
    rw [hdec] at hmem
    cases hmem with
    | tail _ hmem => cases hmem
  rintro (⟨x, hx, hxoff, -⟩ | hclear)
  · rw [hlog] at hx
    rw [hoff] at hxoff
    revert x
    decide
  · have hc : c ∈ s.log := by rw [hlog]; decide
    rcases hclear c hc (by rw [hstage]; decide) hnot with havoids | hlap
    · rw [hoff] at havoids
      revert havoids
      unfold Block.Avoids
      decide
    · rw [hoff] at hlap
      revert hlap
      decide

end MockExchange
