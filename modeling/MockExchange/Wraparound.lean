import MockExchange.CompleteDelivery
import MockExchange.LowWatermark
import MockExchange.Service

/-!
# The write offset wraps around

The packed word has 56 bits for the write offset, `read_offset` has 64. Claims of
14 bytes cut a ring of 64 bytes into one message and one skip message of 32
bytes each, and 2^51 such blocks take the write offset back to 0. What holds of
every run below that limit no longer holds behind it.
-/

namespace MockExchange

open ByteMemory Tiling MessageHeader Memory Transition ListUpdate

/-! ### One reader, one block at a time -/

def lapData : List UInt8 := List.replicate 14 7

/-- The `j`-th block in the stream. -/
def lapBlock (j : Nat) : Block := ⟨32 * j, 32, 14, 1, lapData⟩

/-- The only reader is idle at `p`, and `read_offset` is there too. -/
structure Turn (s : State) (rd : Reader) (p : Nat) : Prop where
  readers : s.readers = [rd]
  position : rd.absReadOffset = p
  idle : rd.pc = .idle
  staying : rd.leaveOffset = none
  joined : rd.joinOffset = 0
  mark : s.readOffset = p

section

variable {s t : State} {rd : Reader} {j : Nat}

theorem lapBlock_shape (j : Nat) : (lapBlock j).Shape .smallest where
  size_pos := (by decide : 1 ≤ 14)
  size_le := (by decide : 14 ≤ 64 - 18)
  data_le := (by decide : lapData.length ≤ 14)
  length_eq := by
    change 32 = bytesToBump 64 (32 * j) 32
    rw [bytesToBump_eq]
    split <;> omega
  room := by
    change 32 * j % 64 + 18 ≤ 64
    omega

theorem lapBlock_isPadding (j : Nat) :
    (lapBlock j).isPadding .smallest = decide (j % 2 = 1) := by
  apply Bool.eq_iff_iff.mpr
  rw [decide_eq_true_eq, Block.isPadding, needsSkip_iff]
  change 64 - 32 * j % 64 < 14 + 18 + 18 ↔ _
  omega

theorem Turn.getElem? {p : Nat} (h : Turn s rd p) : s.readers[0]? = some rd := by
  rw [h.readers]
  rfl

theorem Turn.activeReaders {p : Nat} (h : Turn s rd p) : 0 < s.activeReaders := by
  simp [State.activeReaders, h.readers, Reader.active, h.staying]

/-- The block at the reader's offset need not wait. -/
theorem Turn.mustWait (h : Turn s rd (32 * j)) : mustWait .smallest s (lapBlock j) = false := by
  have hsub : sub64 (lapBlock j).finish s.readOffset = 32 := by
    rw [h.mark, sub64]
    change (32 * j + 32 + 2 ^ 64 - 32 * j) % 2 ^ 64 = 32
    have hcancel : 32 * j + 32 + 2 ^ 64 - 32 * j = 32 + 2 ^ 64 := by omega
    rw [hcancel, Nat.add_mod_right]
    rfl
  rw [MockExchange.mustWait, hsub]
  rfl

theorem lapBlock_offset_lt (hj : j < 2 ^ 51) : (lapBlock j).offset < 2 ^ 64 := by
  change 32 * j < _
  omega

/-- A skip message is committed by its claim. -/
theorem Turn.commits_skip (h : Turn s rd (32 * j)) (hj : j < 2 ^ 51) (hodd : j % 2 = 1) :
    Commits .smallest s (lapBlock j) (finishClaim .smallest s (lapBlock j)) := by
  have hpad : (lapBlock j).isPadding .smallest = true := by simp [lapBlock_isPadding, hodd]
  exact commits_finishSkip (lapBlock_shape j) (lapBlock_offset_lt hj) (by simp [lapBlock])
    h.mustWait hpad

/-- A message is committed by the write that follows its claim. -/
theorem Turn.commits_message (h : Turn s rd (32 * j)) (hj : j < 2 ^ 51) (heven : ¬ j % 2 = 1) :
    Commits .smallest s (lapBlock j)
      (writeToBuffer .smallest (finishClaim .smallest s (lapBlock j)) (lapBlock j)) := by
  have hpad : (lapBlock j).isPadding .smallest = false := by simp [lapBlock_isPadding, heven]
  exact commits_writeToBuffer (lapBlock_shape j) (lapBlock_offset_lt hj) (by simp [lapBlock])
    h.mustWait hpad

theorem Turn.step_writeToBuffer (h : Turn s rd (32 * j)) (heven : ¬ j % 2 = 1)
    (hb : lapBlock j ∈ s.log) :
    step .smallest (finishClaim .smallest s (lapBlock j)) (.writeToBuffer (lapBlock j)) =
      some (writeToBuffer .smallest (finishClaim .smallest s (lapBlock j)) (lapBlock j)) := by
  have hpad : (lapBlock j).isPadding .smallest = false := by simp [lapBlock_isPadding, heven]
  have hclaimed : (finishClaim .smallest s (lapBlock j)).AtStage (lapBlock j) .claimed := by
    rw [finishClaim_eq h.mustWait]
    simp only [hpad, Bool.false_eq_true, if_false]
    exact ⟨hb, Function.update_self _ _ _⟩
  simp [step, hclaimed, hpad]

theorem Commits.turn {Q : RingSize} {b : Block} {p : Nat} (hcommits : Commits Q s b t)
    (h : Turn s rd p) : Turn t rd p := by
  rw [hcommits.rest]
  exact ⟨h.readers, h.position, h.idle, h.staying, h.joined, h.mark⟩

theorem Turn.reserve {Q : RingSize} {p size : Nat} {data : List UInt8} (h : Turn s rd p) :
    Turn (reserve Q s size data) rd p :=
  ⟨h.readers, h.position, h.idle, h.staying, h.joined, h.mark⟩

/-- A claim of 14 bytes reserves the next block of the stream. -/
theorem newBlock_eq {j w : Nat} (hword : Packs s.readersAndWriteOffset 1 w) (hw : w = 32 * j)
    {data : List UInt8} : newBlock .smallest s 14 data = { lapBlock j with data := data } := by
  have hwrite : s.writeOffset = 32 * j := hword.writeOffset.trans hw
  have hcount : s.numReaders = 1 := hword.numReaders
  have hlen := (lapBlock_shape j).length_eq
  simp only [newBlock, hwrite, hcount, lapBlock]
  congr 1
  exact hlen.symm

theorem reserve_word {w size : Nat} {data : List UInt8} (hword : Packs s.readersAndWriteOffset 1 w)
    {b : Block} (hnew : newBlock .smallest s size data = b) (hlen : b.length = 32) :
    Packs (reserve .smallest s size data).readersAndWriteOffset 1 ((w + 32) % 2 ^ 56) := by
  have hnext := hword.returnAddOffset_mod (UInt64.ofNat 32)
  rw [reserve]
  simp only [hnew, hlen]
  exact hnext

/-- The release of the block in turn, from a call on, ends in the next turn. -/
theorem Turn.released {u : State} {received : List (List UInt8)} (hj : j < 2 ^ 51)
    (h : Turn s rd (32 * j)) (hmark : u.readOffset = s.readOffset)
    (hreaders : u.readers = [{ rd with
      pc := .releaseCalled ((lapBlock j).hdr .smallest), received := received }])
    (hmem : BlockMem .smallest u.mem (lapBlock j) .committed 1) :
    ∃ rd' rd'', ReleasesLast u 0 rd' ((lapBlock j).hdr .smallest) 32
        (finishRelease .smallest u 0) ∧
      Turn (finishRelease .smallest u 0) rd'' (32 * (j + 1)) ∧ rd''.received = received := by
  have hadd : add64 (32 * j) 32 = 32 * (j + 1) := by
    rw [add64]
    omega
  have hget : u.readers[0]? = some { rd with
      pc := .releaseCalled ((lapBlock j).hdr .smallest), received := received } := by
    rw [hreaders]
    rfl
  have hrel : ReleasesLast u 0 _ ((lapBlock j).hdr .smallest) 32 (finishRelease .smallest u 0) :=
    hmem.releasesLast (lapBlock_shape j) hget rfl h.staying
  have hreaders' := hrel.readers
  rw [hreaders, List.set_cons_zero] at hreaders'
  have hmark' := hrel.readOffset
  rw [hmark, h.mark, hadd] at hmark'
  refine ⟨_, _, hrel, ⟨hreaders', ?_, rfl, h.staying, h.joined, hmark'⟩, rfl⟩
  simp only [h.position, hadd]

end

/-! ### Releases in order -/

/-- `ReleasesInOrder` without its limit on the bytes reserved in all. -/
def ReleasesUnlimited (s : State) : Action → Prop
  | .join => s.activeReaders < 255
  | .reserve size data => data.length ≤ size ∧ 0 < s.activeReaders
  | .callRelease r => ∀ rd ∈ s.readers[r]?, s.CommittedAt rd.absReadOffset
  | .loadReadOffset _ | .storeHeader _ | .finishSkip _ | .writeToBuffer _ | .releaseStep _ => True
  | _ => False

section

variable {s t : State} {rd : Reader} {j : Nat}

theorem unguardedClaims_unlimited : UnguardedClaims ReleasesUnlimited where
  loadReadOffset := fun _ _ => trivial
  storeHeader := fun _ _ => trivial
  finishSkip := fun _ _ => trivial

/-- A reserved block that is next in turn gets committed. -/
theorem reach_commits (hj : j < 2 ^ 51) (hturn : Turn s rd (32 * j))
    (hreach : Reach (step .smallest) ReleasesUnlimited State.init s)
    (hb : s.AtStage (lapBlock j) .waiting) :
    ∃ t, Reach (step .smallest) ReleasesUnlimited State.init t ∧
      Commits .smallest s (lapBlock j) t := by
  have hclaim := reach_finishClaim unguardedClaims_unlimited hreach hb
  by_cases hodd : j % 2 = 1
  · exact ⟨_, hclaim, hturn.commits_skip hj hodd⟩
  · have hguard : ReleasesUnlimited (finishClaim .smallest s (lapBlock j))
        (.writeToBuffer (lapBlock j)) := trivial
    exact ⟨_, hclaim.next hguard (hturn.step_writeToBuffer hodd hb.1),
      hturn.commits_message hj hodd⟩

/-- A committed block that is next in turn gets released. -/
theorem reach_released (hj : j < 2 ^ 51) (hturn : Turn s rd (32 * j))
    (hreach : Reach (step .smallest) ReleasesUnlimited State.init s)
    (hb : s.AtStage (lapBlock j) .committed)
    (hmem : BlockMem .smallest s.mem (lapBlock j) .committed 1) :
    ∃ t rd', Reach (step .smallest) ReleasesUnlimited State.init t ∧ Turn t rd' (32 * (j + 1)) ∧
      t.log = s.log ∧ t.readersAndWriteOffset = s.readersAndWriteOffset := by
  have hhdr : rd.absReadOffset % RingSize.smallest.bytes = (lapBlock j).hdr .smallest := by
    rw [hturn.position]
    rfl
  have hguard : ReleasesUnlimited s (.callRelease 0) := by
    intro x hx
    rw [hturn.getElem?, Option.mem_some_iff] at hx
    rw [← hx, hturn.position]
    exact ⟨lapBlock j, hb.1, rfl, hb.2⟩
  have hcall : step .smallest s (.callRelease 0) =
      some (callRelease s 0 rd ((lapBlock j).hdr .smallest)) := by
    simp [step, hturn.getElem?, hturn.idle, hhdr]
  have hreaders : (callRelease s 0 rd ((lapBlock j).hdr .smallest)).readers =
      [{ rd with pc := .releaseCalled ((lapBlock j).hdr .smallest) }] := by
    rw [callRelease, State.setReader, hturn.readers]
    rfl
  obtain ⟨_, rd', hrel, hnext, -⟩ := hturn.released
    (u := callRelease s 0 rd ((lapBlock j).hdr .smallest)) hj rfl hreaders hmem
  refine ⟨_, rd', ?_, hnext, hrel.log, hrel.word⟩
  exact reach_finishRelease (hreach.next hguard hcall) (fun _ _ => trivial)

/-- The next block is reserved and committed. -/
theorem reach_committed (hj : j < 2 ^ 51) (hturn : Turn s rd (32 * j))
    (hreach : Reach (step .smallest) ReleasesUnlimited State.init s)
    (hword : Packs s.readersAndWriteOffset 1 (32 * j)) :
    ∃ t, Reach (step .smallest) ReleasesUnlimited State.init t ∧
      Commits .smallest (reserve .smallest s 14 lapData) (lapBlock j) t ∧ Turn t rd (32 * j) ∧
      t.AtStage (lapBlock j) .committed ∧ t.log = s.log ++ [lapBlock j] ∧
      Packs t.readersAndWriteOffset 1 (32 * (j + 1) % 2 ^ 56) := by
  have hnew : newBlock .smallest s 14 lapData = lapBlock j := newBlock_eq hword rfl
  have hguard : ReleasesUnlimited s (.reserve 14 lapData) :=
    ⟨by decide, hturn.activeReaders⟩
  have hreserved := hreach.next hguard (u := reserve .smallest s 14 lapData) rfl
  have hlog : (reserve .smallest s 14 lapData).log = s.log ++ [lapBlock j] := by
    rw [reserve_log, hnew]
  have hwaiting : (reserve .smallest s 14 lapData).AtStage (lapBlock j) .waiting := by
    refine ⟨by simp [hlog], ?_⟩
    rw [← hnew]
    exact Function.update_self _ _ _
  obtain ⟨u, hcommitted, hcommits⟩ := reach_commits hj hturn.reserve hreserved hwaiting
  have hlog' : u.log = s.log ++ [lapBlock j] := by rw [hcommits.log, hlog]
  refine ⟨u, hcommitted, hcommits, hcommits.turn hturn.reserve, ⟨by simp [hlog'], ?_⟩, hlog', ?_⟩
  · rw [hcommits.stage]
    exact Function.update_self _ _ _
  · rw [hcommits.word]
    exact reserve_word hword hnew rfl

/-- A block is reserved, committed and released, and the next one can be. -/
theorem reach_nextBlock (hj : j < 2 ^ 51) (hturn : Turn s rd (32 * j))
    (hreach : Reach (step .smallest) ReleasesUnlimited State.init s)
    (hword : Packs s.readersAndWriteOffset 1 (32 * j)) :
    ∃ t rd', Reach (step .smallest) ReleasesUnlimited State.init t ∧ Turn t rd' (32 * (j + 1)) ∧
      Packs t.readersAndWriteOffset 1 (32 * (j + 1) % 2 ^ 56) ∧ t.log = s.log ++ [lapBlock j] := by
  obtain ⟨u, hcommitted, hcommits, hturn', hstage, hlog, hnextWord⟩ :=
    reach_committed hj hturn hreach hword
  obtain ⟨t, rd', hreleased, hnext, hlog', hword'⟩ :=
    reach_released hj hturn' hcommitted hstage hcommits.memory
  exact ⟨t, rd', hreleased, hnext, by rwa [hword'], by rw [hlog', hlog]⟩

/-- `j` blocks one after the other. -/
theorem exists_turn (hj : j ≤ 2 ^ 51) :
    ∃ s rd, Reach (step .smallest) ReleasesUnlimited State.init s ∧ Turn s rd (32 * j) ∧
      Packs s.readersAndWriteOffset 1 (32 * j % 2 ^ 56) ∧ ∀ b ∈ s.log, b.offset < 2 ^ 56 := by
  induction j with
  | zero =>
    have hjoin : ReleasesUnlimited State.init .join :=
      (by decide : State.init.activeReaders < 255)
    refine ⟨join State.init, .joinedAt 0, (Reach.refl _).next hjoin rfl,
      ⟨rfl, rfl, rfl, rfl, rfl, rfl⟩, ⟨by decide, by decide, by decide⟩, ?_⟩
    intro b hb
    cases hb
  | succ j ih =>
    obtain ⟨s, rd, hreach, hturn, hword, hlog⟩ := ih (by omega)
    rw [Nat.mod_eq_of_lt (by omega)] at hword
    obtain ⟨t, rd', hreach', hturn', hword', hlog'⟩ :=
      reach_nextBlock (by omega) hturn hreach hword
    refine ⟨t, rd', hreach', hturn', hword', ?_⟩
    intro b hb
    rw [hlog', List.mem_append, List.mem_singleton] at hb
    rcases hb with hold | rfl
    · exact hlog b hold
    · change 32 * j < _
      omega

end

/-- After 2^56 bytes `write_offset` is 0 again and `read_offset` is where no
block starts. -/
theorem read_offset_past_wraparound :
    ∃ s, Reach (step .smallest) ReleasesUnlimited State.init s ∧ s.readOffset = 2 ^ 56 ∧
      s.writeOffset = 0 ∧ ¬ WatermarkInOrder s := by
  obtain ⟨s, rd, hreach, hturn, hword, hlog⟩ := exists_turn (Nat.le_refl (2 ^ 51))
  have hmark : s.readOffset = 2 ^ 56 := hturn.mark
  have hwrite : s.writeOffset = 0 := hword.writeOffset
  refine ⟨s, hreach, hmark, hwrite, ?_⟩
  intro hinorder
  rcases hinorder.boundary with hend | ⟨b, hb, hstart⟩
  · rw [hmark, hwrite] at hend
    cases hend
  · have := hlog b hb
    omega

/-! ### Complete delivery -/

/-- `UniformRun` without its limit on the bytes reserved in all. -/
def UniformUnlimited (size : Nat) (s : State) (a : Action) : Prop :=
  PollingRun s a ∧ match a with
    | .join => s.activeReaders < 255
    | .reserve n data => n = size ∧ data.length = n ∧ 0 < s.activeReaders
    | .abortBuffer _ => False
    | _ => True

instance (size : Nat) (s : State) (a : Action) : Decidable (UniformUnlimited size s a) := by
  apply Action.casesOn (motive := fun a => Decidable (UniformUnlimited size s a)) a <;> intros <;>
    dsimp only [UniformUnlimited] <;> infer_instance

/-- The first claim, whose payload is about to be lost. -/
def firstBlock : Block := ⟨0, 32, 14, 1, List.replicate 14 1⟩

/-- Nothing was read, and the stream is reserved up to block `j`. -/
structure Overrun (s : State) (j : Nat) : Prop where
  readers : s.readers = [.joinedAt 0]
  mark : s.readOffset = 0
  word : Packs s.readersAndWriteOffset 1 (32 * j % 2 ^ 56)
  first : firstBlock ∈ s.log
  grid : ∀ b ∈ s.log, ∃ i < 2 ^ 51, b.offset = 32 * i
  laps : ∀ i, 0 < i → i < j → s.AtStage (lapBlock i) .waiting

/-- Everything is reserved, and the reader is at block `j`. -/
structure CatchUp (s : State) (rd : Reader) (j : Nat) : Prop where
  turn : Turn s rd (32 * j)
  first : firstBlock ∈ s.log
  grid : ∀ b ∈ s.log, ∃ i < 2 ^ 51, b.offset = 32 * i
  laps : ∀ i < 2 ^ 51, lapBlock i ∈ s.log
  done : ∀ i < j, s.stage (32 * i) = .committed
  waiting : ∀ i, j ≤ i → i < 2 ^ 51 → s.stage (32 * i) = .waiting
  lost : firstBlock.data ∉ rd.received
  clear : 0 < j → commitFlag s.mem 0 = 0

section

variable {s t u w : State} {rd rd' : Reader} {j : Nat}

theorem exists_first :
    ∃ s, Reach (opStep .smallest) (OpOk .smallest (UniformUnlimited 14)) State.init s ∧
      Overrun s 1 := by
  have hexec : (exec (opStep .smallest) (OpOk .smallest (UniformUnlimited 14)) State.init
      [.join, .reserve 14 firstBlock.data, .finishClaim firstBlock,
        .writeToBuffer firstBlock]).any (fun s => decide (s.readers = [.joinedAt 0] ∧
          s.readOffset = 0 ∧ s.readersAndWriteOffset = 8193 ∧ s.log = [firstBlock])) = true := by
    decide +kernel
  obtain ⟨s, hrun, hs⟩ := exists_run_of_exec hexec
  obtain ⟨hreaders, hmark, hword, hlog⟩ := of_decide_eq_true hs
  refine ⟨s, ⟨_, hrun⟩, hreaders, hmark, ?_, by simp [hlog], ?_, ?_⟩
  · rw [hword]
    exact ⟨by decide, by decide, by decide⟩
  · intro b hb
    rw [hlog, List.mem_singleton] at hb
    exact ⟨0, by decide, by rw [hb]; rfl⟩
  · intro i hpos hlt
    omega

/-- A reservation of block `i` leaves the others as they were. -/
theorem reserve_atStage {i k : Nat} (hnew : newBlock .smallest s 14 lapData = lapBlock k)
    (h : i = k ∨ s.AtStage (lapBlock i) .waiting) :
    (reserve .smallest s 14 lapData).AtStage (lapBlock i) .waiting := by
  have hstage : (reserve .smallest s 14 lapData).stage =
      Function.update s.stage (lapBlock k).offset .waiting := by rw [← hnew]; rfl
  rw [State.AtStage, hstage, reserve_log, hnew]
  by_cases hik : i = k
  · subst hik
    exact ⟨by simp, Function.update_self _ _ _⟩
  · obtain ⟨hlog, hold⟩ := h.resolve_left hik
    have hne : (lapBlock i).offset ≠ (lapBlock k).offset := by
      change 32 * i ≠ 32 * k
      omega
    exact ⟨List.mem_append_left _ hlog, by rw [Function.update_of_ne hne]; exact hold⟩

theorem reserve_grid {k : Nat} (hk : k < 2 ^ 51)
    (hnew : newBlock .smallest s 14 lapData = lapBlock k)
    (h : ∀ b ∈ s.log, ∃ i < 2 ^ 51, b.offset = 32 * i) :
    ∀ b ∈ (reserve .smallest s 14 lapData).log, ∃ i < 2 ^ 51, b.offset = 32 * i := by
  intro b hb
  rw [reserve_log, hnew, List.mem_append, List.mem_singleton] at hb
  rcases hb with hold | rfl
  · exact h b hold
  · exact ⟨k, hk, rfl⟩

theorem Overrun.guard (h : Overrun s j) :
    OpOk .smallest (UniformUnlimited 14) s (.reserve 14 lapData) := by
  refine ⟨trivial, rfl, by decide, ?_⟩
  rw [State.activeReaders, h.readers]
  decide

/-- Reservations need no room, so they get around the whole range of offsets. -/
theorem exists_overrun (hpos : 1 ≤ j) (hj : j ≤ 2 ^ 51) :
    ∃ s, Reach (opStep .smallest) (OpOk .smallest (UniformUnlimited 14)) State.init s ∧
      Overrun s j := by
  induction j, hpos using Nat.le_induction with
  | base => exact exists_first
  | succ j hpos ih =>
    obtain ⟨s, hreach, h⟩ := ih (by omega)
    have hword := h.word
    rw [Nat.mod_eq_of_lt (by omega)] at hword
    have hnew : newBlock .smallest s 14 lapData = lapBlock j := newBlock_eq hword rfl
    refine ⟨reserve .smallest s 14 lapData, hreach.next h.guard rfl, h.readers, h.mark,
      reserve_word hword hnew rfl, List.mem_append_left _ h.first,
      reserve_grid (by omega) hnew h.grid, ?_⟩
    intro i hi hlt
    apply reserve_atStage hnew
    by_cases hij : i = j
    · exact Or.inl hij
    · exact Or.inr (h.laps i hi (by omega))

/-- The reservation behind the last one starts at offset 0 again, over the
first claim that nobody has read. -/
theorem exists_catchUp :
    ∃ s rd, Reach (opStep .smallest) (OpOk .smallest (UniformUnlimited 14)) State.init s ∧
      CatchUp s rd 0 := by
  obtain ⟨s, hreach, h⟩ := exists_overrun (by decide) (Nat.le_refl (2 ^ 51))
  have hword : Packs s.readersAndWriteOffset 1 0 := h.word
  have hnew : newBlock .smallest s 14 lapData = lapBlock 0 := newBlock_eq hword rfl
  have hwaiting : ∀ i < 2 ^ 51,
      (reserve .smallest s 14 lapData).AtStage (lapBlock i) .waiting := by
    intro i hi
    apply reserve_atStage hnew
    by_cases hzero : i = 0
    · exact Or.inl hzero
    · exact Or.inr (h.laps i (by omega) hi)
  refine ⟨reserve .smallest s 14 lapData, .joinedAt 0, hreach.next h.guard rfl,
    ⟨h.readers, rfl, rfl, rfl, rfl, h.mark⟩, List.mem_append_left _ h.first,
    reserve_grid (by decide) hnew h.grid, fun i hi => (hwaiting i hi).1, ?_,
    fun i _ hi => (hwaiting i hi).2, by simp [Reader.joinedAt], ?_⟩
  · intro i hi
    omega
  · intro hpos
    omega

theorem CatchUp.atStage (h : CatchUp s rd j) (hj : j < 2 ^ 51) :
    s.AtStage (lapBlock j) .waiting :=
  ⟨h.laps j hj, h.waiting j (Nat.le_refl j) hj⟩

/-- Once block `j` is committed and released, the reader is at the next. -/
theorem CatchUp.next (h : CatchUp s rd j) {hdr : Nat} {rd'' : Reader}
    (hcommits : Commits .smallest s (lapBlock j) u) (hmem : w.mem = u.mem) (hlog : w.log = u.log)
    (hstage : w.stage = u.stage) (hrel : ReleasesLast w 0 rd'' hdr 32 t)
    (hhdr : hdr = (lapBlock j).hdr .smallest) (hturn : Turn t rd' (32 * (j + 1)))
    (hlost : firstBlock.data ∉ rd'.received) : CatchUp t rd' (j + 1) := by
  have hlog' : t.log = s.log := by rw [hrel.log, hlog, hcommits.log]
  have hstage' : t.stage = Function.update s.stage (32 * j) .committed := by
    rw [hrel.stage, hstage, hcommits.stage]
    rfl
  refine
    { turn := hturn, first := hlog' ▸ h.first, grid := hlog' ▸ h.grid, laps := hlog' ▸ h.laps,
      done := ?_, waiting := ?_, lost := hlost, clear := ?_ }
  · intro i hi
    rw [hstage']
    by_cases hij : i = j
    · rw [hij, Function.update_self]
    · rw [Function.update_of_ne (by omega)]
      exact h.done i (by omega)
  · intro i hlo hhi
    rw [hstage', Function.update_of_ne (by omega)]
    exact h.waiting i (by omega) hhi
  · intro _
    by_cases hodd : j % 2 = 1
    · -- a skip message leaves the header in front of it alone
      have hhdr' : hdr = 32 := by
        rw [hhdr]
        change 32 * j % 64 = 32
        omega
      have hout : t.mem 17 = w.mem 17 := hrel.outside 17 (by omega)
      have hframe : u.mem 17 = s.mem 17 := by
        apply hcommits.frame 17 (by decide)
        change 17 < 32 * j % 64 ∨ _
        omega
      change t.mem 17 = 0
      rw [hout, hmem, hframe]
      exact h.clear (by omega)
    · have hhdr' : hdr = 0 := by
        rw [hhdr]
        change 32 * j % 64 = 0
        omega
      have hflag := hrel.flag
      rwa [hhdr'] at hflag

theorem uniformUnlimited_pollOk {r fuel : Nat} :
    PollOk .smallest (UniformUnlimited 14) fuel s r :=
  .of_forall (fun _ _ => ⟨trivial, trivial⟩) (fun _ _ => ⟨trivial, trivial⟩)

theorem CatchUp.reach_claim (h : CatchUp s rd j) (hj : j < 2 ^ 51)
    (hreach : Reach (opStep .smallest) (OpOk .smallest (UniformUnlimited 14)) State.init s) :
    Reach (opStep .smallest) (OpOk .smallest (UniformUnlimited 14)) State.init
      (finishClaim .smallest s (lapBlock j)) := by
  have hok : OpOk .smallest (UniformUnlimited 14) s (.finishClaim (lapBlock j)) := trivial
  exact hreach.next hok (by simp [opStep, h.atStage hj])

/-- What the poll at the committed block in turn finds. -/
theorem Turn.pollOutcome (h : Turn u rd (32 * j))
    (hmem : BlockMem .smallest u.mem (lapBlock j) .committed 1) :
    pollOutcome .smallest u.mem rd.absReadOffset =
      if j % 2 = 1 then .skipPadding else .wrapper := by
  have hout := pollOutcome_of_blockMem hmem Nat.one_pos
  have hoffset : (lapBlock j).offset = rd.absReadOffset := h.position.symm
  rw [lapBlock_isPadding, hoffset] at hout
  simpa only [decide_eq_true_eq] using hout

/-- A skip message is committed, skipped and released; behind it there is
nothing to read yet. -/
theorem CatchUp.reach_skip (h : CatchUp s rd j) (hj : j < 2 ^ 51) (hodd : j % 2 = 1)
    (hreach : Reach (opStep .smallest) (OpOk .smallest (UniformUnlimited 14)) State.init s) :
    ∃ t rd', Reach (opStep .smallest) (OpOk .smallest (UniformUnlimited 14)) State.init t ∧
      CatchUp t rd' (j + 1) := by
  obtain ⟨u, hclaimed, hcommits⟩ : ∃ u, Reach (opStep .smallest)
      (OpOk .smallest (UniformUnlimited 14)) State.init u ∧ Commits .smallest s (lapBlock j) u :=
    ⟨_, h.reach_claim hj hreach, h.turn.commits_skip hj hodd⟩
  have hturn := hcommits.turn h.turn
  have hhdr : rd.absReadOffset % RingSize.smallest.bytes = (lapBlock j).hdr .smallest := by
    rw [hturn.position]
    rfl
  have hout := hturn.pollOutcome hcommits.memory
  rw [if_pos hodd] at hout
  -- the call of `release_buffer` on the skip message
  obtain ⟨asserts, hpoll⟩ := pollHeader_skipPadding (r := 0) hout
  rw [hhdr, hturn.readers, List.set_cons_zero] at hpoll
  obtain ⟨_, rd', hrel, hnext, hreceived⟩ := hturn.released
    (u := pollHeader .smallest u 0 rd) hj (by rw [hpoll]) (by rw [hpoll])
    (by rw [hpoll]; exact hcommits.memory)
  have hcatch := h.next hcommits (by rw [hpoll]) (by rw [hpoll]) (by rw [hpoll]) hrel rfl hnext
    (by rw [hreceived]; exact h.lost)
  have hok : OpOk .smallest (UniformUnlimited 14) u (.pollBuffer 0 2) := uniformUnlimited_pollOk
  refine ⟨_, rd', hclaimed.next hok ?_, hcatch⟩
  -- the second call of `poll_buffer`
  have hnone : pollOutcome .smallest
      (finishRelease .smallest (pollHeader .smallest u 0 rd) 0).mem rd'.absReadOffset =
        .nullopt := by
    apply pollOutcome_of_notReady
    have hzero : rd'.absReadOffset % RingSize.smallest.bytes = 0 := by
      rw [hnext.position]
      change 32 * (j + 1) % 64 = 0
      omega
    rw [hzero]
    exact hcatch.clear (by omega)
  simp [opStep, hturn.getElem?, hturn.idle, pollBuffer, hout, hnext.getElem?, hnone]

/-- A message is committed, delivered and released. -/
theorem CatchUp.reach_message (h : CatchUp s rd j) (hj : j < 2 ^ 51) (heven : ¬ j % 2 = 1)
    (hreach : Reach (opStep .smallest) (OpOk .smallest (UniformUnlimited 14)) State.init s) :
    ∃ t rd', Reach (opStep .smallest) (OpOk .smallest (UniformUnlimited 14)) State.init t ∧
      CatchUp t rd' (j + 1) := by
  have hok : OpOk .smallest (UniformUnlimited 14) (finishClaim .smallest s (lapBlock j))
      (.writeToBuffer (lapBlock j)) := ⟨trivial, trivial⟩
  obtain ⟨u, hwritten, hcommits⟩ : ∃ u, Reach (opStep .smallest)
      (OpOk .smallest (UniformUnlimited 14)) State.init u ∧ Commits .smallest s (lapBlock j) u :=
    ⟨_, (h.reach_claim hj hreach).next hok (h.turn.step_writeToBuffer heven (h.laps j hj)),
      h.turn.commits_message hj heven⟩
  have hturn := hcommits.turn h.turn
  have hhdr : rd.absReadOffset % RingSize.smallest.bytes = (lapBlock j).hdr .smallest := by
    rw [hturn.position]
    rfl
  have hout := hturn.pollOutcome hcommits.memory
  rw [if_neg heven] at hout
  -- the poll hands out the block's own data
  have hpad : (lapBlock j).isPadding .smallest = false := by simp [lapBlock_isPadding, heven]
  have hdata : payload u.mem ((lapBlock j).hdr .smallest)
      (messageSize u.mem ((lapBlock j).hdr .smallest)) = lapData := by
    rw [hcommits.memory.messageSize (by decide) Nat.one_pos, Block.messageSize, hpad]
    exact hcommits.memory.data rfl hpad Nat.one_pos
  obtain ⟨asserts, hpoll⟩ := pollHeader_wrapper (r := 0) hout
  rw [hhdr, hdata, hturn.readers, List.set_cons_zero] at hpoll
  have hpollOk : OpOk .smallest (UniformUnlimited 14) u (.pollBuffer 0 1) :=
    uniformUnlimited_pollOk
  obtain ⟨v, hpolled, hpoll⟩ : ∃ v, Reach (opStep .smallest)
      (OpOk .smallest (UniformUnlimited 14)) State.init v ∧ v = { u with
        readers := [{ rd with
          pc := .holding ((lapBlock j).hdr .smallest), received := rd.received ++ [lapData] }]
        assertsHold := asserts } :=
    ⟨_, hwritten.next hpollOk
      (by simp [opStep, hturn.getElem?, hturn.idle, pollBuffer, hout]), hpoll⟩
  -- and the reader releases it
  obtain ⟨held, hheld⟩ : ∃ held : Reader, held = { rd with
      pc := .holding ((lapBlock j).hdr .smallest), received := rd.received ++ [lapData] } :=
    ⟨_, rfl⟩
  rw [← hheld] at hpoll
  have hget : v.readers[0]? = some held := by
    rw [hpoll]
    rfl
  have hcalled : (callRelease v 0 held ((lapBlock j).hdr .smallest)).readers = [{ rd with
      pc := .releaseCalled ((lapBlock j).hdr .smallest), received := rd.received ++ [lapData] }] := by
    rw [callRelease, State.setReader, hpoll, hheld]
    rfl
  obtain ⟨_, rd', hrel, hnext, hreceived⟩ := hturn.released
    (u := callRelease v 0 held ((lapBlock j).hdr .smallest)) hj
    (by rw [callRelease, State.setReader, hpoll]) hcalled
    (by rw [callRelease, State.setReader, hpoll]; exact hcommits.memory)
  have hlost : firstBlock.data ∉ rd'.received := by
    rw [hreceived, List.mem_append, List.mem_singleton]
    rintro (hold | hnew)
    · exact h.lost hold
    · exact absurd hnew (by decide)
  have hreleaseOk : OpOk .smallest (UniformUnlimited 14) v (.releaseBuffer 0) :=
    fun _ _ _ _ _ _ => ⟨trivial, trivial⟩
  refine ⟨_, rd', hpolled.next hreleaseOk ?_, h.next hcommits
    (by rw [callRelease, State.setReader, hpoll]) (by rw [callRelease, State.setReader, hpoll])
    (by rw [callRelease, State.setReader, hpoll]) hrel rfl hnext hlost⟩
  have hpc : held.pc = .holding ((lapBlock j).hdr .smallest) := by rw [hheld]
  simp [opStep, hget, hpc]

/-- The reader gets to the end of the stream. -/
theorem exists_caughtUp (hj : j ≤ 2 ^ 51) :
    ∃ s rd, Reach (opStep .smallest) (OpOk .smallest (UniformUnlimited 14)) State.init s ∧
      CatchUp s rd j := by
  induction j with
  | zero => exact exists_catchUp
  | succ j ih =>
    obtain ⟨s, rd, hreach, h⟩ := ih (by omega)
    by_cases hodd : j % 2 = 1
    · exact h.reach_skip (by omega) hodd hreach
    · exact h.reach_message (by omega) hodd hreach

end

/-- 2^56 bytes after the first claim, a claim at offset 0 overwrites it before
anybody read it. -/
theorem overwritten_after_wraparound :
    ∃ s rd, Reach (opStep .smallest) (OpOk .smallest (UniformUnlimited 14)) State.init s ∧
      rd ∈ s.readers ∧ s.AllCommitted ∧ s.PolledDry .smallest rd ∧
      rd.received ≠ s.messagesFrom .smallest rd.joinOffset := by
  obtain ⟨s, rd, hreach, h⟩ := exists_caughtUp (Nat.le_refl (2 ^ 51))
  refine ⟨s, rd, hreach, by simp [h.turn.readers], ?_, ⟨h.turn.idle, ?_⟩, ?_⟩
  · intro b hb
    obtain ⟨i, hi, hoffset⟩ := h.grid b hb
    rw [hoffset]
    exact h.done i hi
  · apply pollOutcome_of_notReady
    rw [h.turn.position]
    exact h.clear (by decide)
  · intro hall
    apply h.lost
    rw [hall, State.messagesFrom, h.turn.joined]
    apply List.mem_map_of_mem
    rw [List.mem_filter]
    exact ⟨h.first, by decide⟩

end MockExchange
