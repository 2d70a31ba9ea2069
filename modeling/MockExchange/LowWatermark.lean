import MockExchange.Soundness

/-!
# The low watermark under interleaved releases

Readers join at any time and release committed blocks in the order of their
offsets; nobody aborts or leaves. Whatever the interleaving of the atomic steps
of their `release_buffer` calls, every block is cleared by exactly one reader,
`read_offset` moves block by block, and a writer past the wait loop writes where
nobody has anything left to read.
-/

namespace MockExchange

open ByteMemory Tiling MessageHeader Transition ListUpdate

/-! ### Who counts in a block, and who released it -/

/-- The reader is one of those a reservation at `off` counts. -/
def Reader.countedIn (rd : Reader) (off : Nat) : Bool :=
  decide (rd.joinOffset ≤ off) && rd.leaveOffset.all fun e => decide (off < e)

/-- The reader's `release_buffer` on the block at `off` has returned. -/
def Reader.HasReleased (rd : Reader) (off : Nat) : Prop :=
  off ∈ rd.decremented ∧ (rd.isClearing → rd.decremented.getLast? ≠ some off)

/-- Every reader counted in the block has executed its `fetch_sub`. -/
def State.Decremented (s : State) (off : Nat) : Prop :=
  ∀ rd ∈ s.readers, rd.countedIn off = true → off ∈ rd.decremented

/-- Every reader counted in the block is done with it. -/
def State.Released (s : State) (off : Nat) : Prop :=
  ∀ rd ∈ s.readers, rd.countedIn off = true → rd.HasReleased off

/-- No reader has closed. -/
def State.Staying (s : State) : Prop := ∀ rd ∈ s.readers, rd.leaveOffset = none

section

variable {Q : RingSize} {s t : State} {b c : Block} {r : Nat} {rd : Reader}

theorem Reader.countedIn_iff {off : Nat} : rd.countedIn off = true ↔
    rd.joinOffset ≤ off ∧ ∀ e, rd.leaveOffset = some e → off < e := by
  cases h : rd.leaveOffset with
  | none => simp [countedIn, h]
  | some e => simp [countedIn, h]

/-- The blocks a reader decremented are those between its join and its offset. -/
theorem Inv.mem_decremented_iff (h : Inv Q s) (hrd : rd ∈ s.readers) (hb : b ∈ s.log) :
    b.offset ∈ rd.decremented ↔ rd.joinOffset ≤ b.offset ∧ b.offset < rd.absReadOffset := by
  rw [(h.reader rd hrd).decremented, State.offsetsIn, List.mem_map]
  constructor
  · rintro ⟨c, hc, heq⟩
    rw [mem_slice] at hc
    omega
  · intro hbetween
    exact ⟨b, mem_slice.mpr ⟨hb, hbetween⟩, rfl⟩

/-- A reader owes exactly the blocks it counts in and has not decremented. -/
theorem Inv.pending_iff (h : Inv Q s) (hrd : rd ∈ s.readers) (hb : b ∈ s.log) :
    rd.pending b.offset = true ↔
      rd.countedIn b.offset = true ∧ b.offset ∉ rd.decremented := by
  have hjoin := (h.reader rd hrd).join_le
  rw [Reader.pending_iff, Reader.countedIn_iff, h.mem_decremented_iff hrd hb]
  constructor
  · rintro ⟨hpos, hleave⟩
    exact ⟨⟨by omega, hleave⟩, by omega⟩
  · rintro ⟨⟨hjoined, hleave⟩, hnot⟩
    exact ⟨by omega, hleave⟩

theorem Inv.decremented_iff (h : Inv Q s) (hb : b ∈ s.log) :
    s.Decremented b.offset ↔ s.pendingCount b.offset = 0 := by
  constructor
  · intro hall
    by_contra hpos
    obtain ⟨rd, hrd, hp⟩ := State.pendingCount_pos_iff.mp (Nat.pos_of_ne_zero hpos)
    obtain ⟨hcounted, hnot⟩ := (h.pending_iff hrd hb).mp hp
    exact hnot (hall rd hrd hcounted)
  · intro hzero rd hrd hcounted
    by_contra hnot
    have hpos := State.pendingCount_pos hrd ((h.pending_iff hrd hb).mpr ⟨hcounted, hnot⟩)
    omega

/-- The block a clearing reader decremented last is the one it clears. -/
theorem Inv.getLast_of_clears (h : Inv Q s) (hrd : rd ∈ s.readers) {step : ClearStep}
    {hdr total : Nat} (hclear : Clears Q s rd step hdr total b) :
    rd.decremented.getLast? = some b.offset := by
  have hr := h.reader rd hrd
  rw [hr.decremented, hclear.passed, State.offsetsIn, Block.finish,
    h.tiles.slice_end hclear.mem_log hclear.joined]
  simp

/-- Behind the watermark everybody is done. -/
theorem Inv.released_of_lt (h : Inv Q s) (hb : b ∈ s.log) (hlt : b.offset < s.readOffset) :
    s.Released b.offset := by
  intro rd hrd hcounted
  have hr := h.reader rd hrd
  have hmem : b.offset ∈ rd.decremented := by
    by_contra hnot
    have := h.owed rd hrd b hb ((h.pending_iff hrd hb).mpr ⟨hcounted, hnot⟩)
    omega
  refine ⟨hmem, ?_⟩
  rintro ⟨step, hdr, total, hpc⟩ hlast
  -- what is being cleared is not behind the watermark
  obtain ⟨c, hc⟩ := hr.clearing step hdr total hpc
  have hlive := hc.live
  rw [h.getLast_of_clears hrd hc] at hlast
  have hcb : c.offset = b.offset := Option.some.inj hlast
  omega

/-! ### Blocks are cleared once -/

/-- The number of readers counted in a block is the snapshot its reservation
took, and `prev_count <= 1` was seen once for every block nobody owes. -/
structure ClearedOnce (s : State) : Prop where
  counted : ∀ b ∈ s.log, s.readers.countP (·.countedIn b.offset) = b.numReaders
  reserved : ∀ off ∈ s.clears, ∃ b ∈ s.log, b.offset = off
  once : ∀ b ∈ s.log, s.pendingCount b.offset = 0 → s.clears.count b.offset = 1
  not_yet : ∀ b ∈ s.log, 0 < s.pendingCount b.offset → s.clears.count b.offset = 0

theorem State.pendingCount_set (hrd : s.readers[r]? = some rd) {rd' : Reader}
    (hsame : rd.SameProgress rd') (off : Nat) :
    (s.readers.set r rd').countP (·.pending off) = s.pendingCount off := by
  apply countP_set_of_eq _ hrd
  rw [Reader.pending, Reader.pending, hsame.absReadOffset, hsame.leaveOffset]

theorem Reader.countedIn_congr {rd' : Reader} (hjoin : rd'.joinOffset = rd.joinOffset)
    (hleave : rd'.leaveOffset = rd.leaveOffset) (off : Nat) :
    rd'.countedIn off = rd.countedIn off := by
  rw [countedIn, countedIn, hjoin, hleave]

/-- A clearing step moves the reader's program counter only. -/
theorem clearStep_readers (s : State) (r : Nat) (rd : Reader) (step : ClearStep)
    (hdr total : Nat) :
    ∃ pc, (clearStep s r rd step hdr total).readers = s.readers.set r { rd with pc := pc } := by
  cases step with
  | body => exact ⟨_, rfl⟩
  | size => exact ⟨_, rfl⟩
  | type => exact ⟨_, rfl⟩
  | flag => exact ⟨_, rfl⟩
  | advance => exact ⟨_, rfl⟩

theorem clearStep_keeps (s : State) (r : Nat) (rd : Reader) (step : ClearStep)
    (hdr total : Nat) :
    (clearStep s r rd step hdr total).log = s.log ∧
      (clearStep s r rd step hdr total).stage = s.stage ∧
      (clearStep s r rd step hdr total).clears = s.clears ∧
      (clearStep s r rd step hdr total).writeOffset = s.writeOffset := by
  cases step with
  | body => exact ⟨rfl, rfl, rfl, rfl⟩
  | size => exact ⟨rfl, rfl, rfl, rfl⟩
  | type => exact ⟨rfl, rfl, rfl, rfl⟩
  | flag => exact ⟨rfl, rfl, rfl, rfl⟩
  | advance => exact ⟨rfl, rfl, rfl, rfl⟩

theorem reserve_log (s : State) (size : Nat) (data : List UInt8) :
    (reserve Q s size data).log = s.log ++ [newBlock Q s size data] := rfl

theorem Inv.joinedAt_countedIn (h : Inv Q s) (hb : b ∈ s.log) :
    (Reader.joinedAt s.writeOffset).countedIn b.offset = false := by
  have hlt := h.offset_lt hb
  have hnot : ¬ s.writeOffset ≤ b.offset := by omega
  simp [Reader.countedIn, Reader.joinedAt, hnot]

/-- A reservation counts exactly the readers that have joined and not left. -/
theorem Inv.countedIn_writeOffset (h : Inv Q s) (hrd : rd ∈ s.readers) :
    rd.countedIn s.writeOffset = rd.active := by
  have hr := h.reader rd hrd
  have hjoin := hr.join_le
  have hpos := hr.boundary.le h.tiles
  have hjoined : rd.joinOffset ≤ s.writeOffset := by omega
  cases hleave : rd.leaveOffset with
  | none => simp [Reader.countedIn, Reader.active, hleave, hjoined]
  | some e =>
    have he := (hr.limit e hleave).2.le h.tiles
    have hnot : ¬ s.writeOffset < e := by omega
    simp [Reader.countedIn, Reader.active, hleave, hnot]

/-- A step that clears nothing and keeps every count keeps the rest as well. -/
theorem ClearedOnce.of_same (hi : ClearedOnce s) (hlog : t.log = s.log)
    (hclears : t.clears = s.clears)
    (hcounted : ∀ b ∈ s.log, t.readers.countP (·.countedIn b.offset) =
      s.readers.countP (·.countedIn b.offset))
    (hpending : ∀ b ∈ s.log, t.pendingCount b.offset = s.pendingCount b.offset) :
    ClearedOnce t := by
  refine ⟨?_, ?_, ?_, ?_⟩
  · intro b hb
    rw [hlog] at hb
    rw [hcounted b hb]
    exact hi.counted b hb
  · rw [hclears, hlog]
    exact hi.reserved
  · intro b hb
    rw [hlog] at hb
    rw [hpending b hb, hclears]
    exact hi.once b hb
  · intro b hb
    rw [hlog] at hb
    rw [hpending b hb, hclears]
    exact hi.not_yet b hb

theorem ClearedOnce.reserve (hi : ClearedOnce s) (h : Inv Q s) {size : Nat} {data : List UInt8}
    (h' : Inv Q (reserve Q s size data)) : ClearedOnce (reserve Q s size data) := by
  have hmem : ∀ b, b ∈ s.log ++ [newBlock Q s size data] →
      b ∈ s.log ∨ b = newBlock Q s size data := by
    intro b hb
    rwa [List.mem_append, List.mem_singleton] at hb
  have hnew : newBlock Q s size data ∈ (MockExchange.reserve Q s size data).log := by
    simp [reserve_log]
  have hcount : s.readers.countP (·.countedIn s.writeOffset) = s.numReaders := by
    rw [State.numReaders, h.word.numReaders]
    exact List.countP_congr fun rd hrd => by rw [h.countedIn_writeOffset hrd]
  -- every reader counted in the new block owes it, and nobody cleared it
  have hstage : (MockExchange.reserve Q s size data).stage (newBlock Q s size data).offset =
      .waiting := Function.update_self _ _ _
  have hpending := h'.unsettled _ hnew (by rw [hstage]; rfl)
  have hcounted := (h'.counted _ hnew).1
  refine ⟨?_, ?_, ?_, ?_⟩
  · intro b hb
    rcases hmem b hb with hold | rfl
    · exact hi.counted b hold
    · exact hcount
  · intro off hoff
    obtain ⟨b, hb, heq⟩ := hi.reserved off hoff
    exact ⟨b, List.mem_append_left _ hb, heq⟩
  · intro b hb hzero
    rcases hmem b hb with hold | rfl
    · exact hi.once b hold hzero
    · omega
  · intro b hb hpos
    rcases hmem b hb with hold | rfl
    · exact hi.not_yet b hold hpos
    · apply List.count_eq_zero_of_not_mem
      intro hclears
      obtain ⟨c, hc, heq⟩ := hi.reserved _ hclears
      have hlt := h.offset_lt hc
      have hoff : (newBlock Q s size data).offset = s.writeOffset := rfl
      omega

theorem ClearedOnce.fetchSub (hi : ClearedOnce s) (h : Inv Q s) (hrd : s.readers[r]? = some rd)
    {hdr : Nat} (hb : Owns Q s rd hdr b) : ClearedOnce (fetchSub Q s r rd hdr) := by
  have howed := (h.header (List.mem_of_getElem? hrd) hb.mem_log hb.settled hb.pending).pending_pos
  have hnone := hi.not_yet b hb.mem_log howed
  rw [h.fetchSub_eq hrd hb]
  generalize hlast : decide (s.pendingCount b.offset ≤ 1) = last
  have hpending := h.pendingCount_passed hrd hb last
  have hothers := fun c hc hne => h.pendingCount_passed_of_ne (c := c) hrd hb last hc hne
  have hoff : ∀ c ∈ s.log, c ≠ b → c.offset ≠ b.offset :=
    fun c hc hne heq => hne (h.eq_of_offset_eq hc hb.mem_log heq)
  have hclears : ∀ off, off ≠ b.offset →
      (if s.pendingCount b.offset ≤ 1 then s.clears ++ [b.offset] else s.clears).count off =
        s.clears.count off := by
    intro off hne
    split
    · rw [List.count_append, List.count_singleton]
      simp [Ne.symm hne]
    · rfl
  refine ⟨?_, ?_, ?_, ?_⟩
  · intro c hc
    have hcongr : (rd.passed Q b last).countedIn c.offset = rd.countedIn c.offset := rfl
    exact (countP_set_of_eq _ hrd hcongr).trans (hi.counted c hc)
  · intro off hmem
    simp only at hmem
    split at hmem
    · rcases List.mem_append.mp hmem with hold | hnew
      · exact hi.reserved off hold
      · exact ⟨b, hb.mem_log, (List.mem_singleton.mp hnew).symm⟩
    · exact hi.reserved off hmem
  · intro c hc hzero
    by_cases hne : c = b
    · rw [hne] at hzero ⊢
      have hone : s.pendingCount b.offset ≤ 1 := by
        have := hpending.symm.trans hzero
        omega
      change List.count b.offset (if s.pendingCount b.offset ≤ 1 then _ else _) = 1
      rw [if_pos hone, List.count_append, hnone]
      simp
    · exact (hclears _ (hoff c hc hne)).trans (hi.once c hc ((hothers c hc hne).symm.trans hzero))
  · intro c hc hpos
    by_cases hne : c = b
    · rw [hne] at hpos ⊢
      have hmore : ¬ s.pendingCount b.offset ≤ 1 := by
        have := Nat.lt_of_lt_of_eq hpos hpending
        omega
      change List.count b.offset (if s.pendingCount b.offset ≤ 1 then _ else _) = 0
      rw [if_neg hmore]
      exact hnone
    · exact (hclears _ (hoff c hc hne)).trans
        (hi.not_yet c hc (Nat.lt_of_lt_of_eq hpos (hothers c hc hne)))

theorem ClearedOnce.step (hi : ClearedOnce s) (h : Inv Q s) (h' : Inv Q t)
    {a : Action} (hchange : Change Q s a t) : ClearedOnce t := by
  cases hchange with
  | join =>
    refine hi.of_same rfl rfl ?_ (fun b hb => h.pendingCount_join hb)
    intro b hb
    rw [join_readers, List.countP_append, List.countP_singleton, h.joinedAt_countedIn hb]
    rfl
  | reserve => exact hi.reserve h h'
  | write => exact hi.of_same rfl rfl (fun _ _ => rfl) (fun _ _ => rfl)
  | move hrd hsame =>
    exact hi.of_same rfl rfl
      (fun b _ => countP_set_of_eq _ hrd
        (Reader.countedIn_congr hsame.joinOffset hsame.leaveOffset b.offset))
      (fun b _ => State.pendingCount_set hrd hsame b.offset)
  | fetchSub hrd hpc =>
    obtain ⟨b, hb⟩ := (h.reader _ (List.mem_of_getElem? hrd)).owns _ (Or.inr hpc)
    exact hi.fetchSub h hrd hb
  | @clearStep r hdr total rd step hrd hpc =>
    obtain ⟨hlog, -, hclears, -⟩ := clearStep_keeps s r rd step hdr total
    obtain ⟨pc, hreaders⟩ := clearStep_readers s r rd step hdr total
    refine hi.of_same hlog hclears ?_ ?_
    · intro b _
      rw [hreaders]
      exact countP_set_of_eq _ hrd rfl
    · intro b _
      rw [State.pendingCount, hreaders]
      exact State.pendingCount_set hrd (.of_pc pc rd.received) b.offset
  | @leave r rd hrd hpc =>
    have hstay := (h.reader rd (List.mem_of_getElem? hrd)).staying (Or.inl hpc)
    refine hi.of_same rfl rfl ?_ (fun b hb => h.pendingCount_leave hrd hpc hb)
    intro b hb
    have hlt := h.offset_lt hb
    have hcongr : (rd.leftAt s.writeOffset).countedIn b.offset = rd.countedIn b.offset := by
      change (decide (rd.joinOffset ≤ b.offset) && decide (b.offset < s.writeOffset)) =
        (decide (rd.joinOffset ≤ b.offset) && rd.leaveOffset.all _)
      rw [hstay, decide_eq_true hlt]
      rfl
    rw [leave_readers]
    exact countP_set_of_eq _ hrd hcongr

theorem ClearedOnce.init : ClearedOnce State.init := by
  constructor <;> simp [State.init]

/-! ### Nobody leaves -/

theorem State.Staying.step (hi : s.Staying) {a : Action} (hchange : Change Q s a t)
    (hnot : ∀ r, a ≠ .leave r) : t.Staying := by
  cases hchange with
  | join =>
    intro rd hrd
    rw [join_readers, List.mem_append, List.mem_singleton] at hrd
    rcases hrd with hold | rfl
    · exact hi rd hold
    · rfl
  | reserve => exact hi
  | write => exact hi
  | move hrd hsame =>
    exact forall_mem_set hi (hsame.leaveOffset.trans (hi _ (List.mem_of_getElem? hrd)))
  | @fetchSub r hdr rd hrd =>
    have hstay := hi rd (List.mem_of_getElem? hrd)
    exact forall_mem_set hi hstay
  | @clearStep r hdr total rd step hrd =>
    obtain ⟨pc, hreaders⟩ := clearStep_readers s r rd step hdr total
    have hstay := hi rd (List.mem_of_getElem? hrd)
    intro x hx
    rw [hreaders] at hx
    rcases List.mem_or_eq_of_mem_set hx with hx | rfl
    · exact hi x hx
    · exact hstay
  | leave => exact absurd rfl (hnot _)

/-- With nobody clearing and nothing owed, the watermark is at the end. -/
theorem Inv.readOffset_eq (h : Inv Q s) (hclear : ∀ rd ∈ s.readers, ¬ rd.isClearing)
    (howed : ∀ rd ∈ s.readers, ∀ b ∈ s.log, rd.pending b.offset = false) :
    s.readOffset = s.writeOffset := by
  by_contra hne
  have hle := h.mark.le h.tiles
  obtain ⟨b, hb, hstart⟩ := h.mark.exists_of_lt (by omega)
  have hzero : s.pendingCount b.offset = 0 := by
    by_contra hpos
    obtain ⟨rd, hrd, hp⟩ := State.pendingCount_pos_iff.mp (Nat.pos_of_ne_zero hpos)
    rw [howed rd hrd b hb] at hp
    cases hp
  obtain ⟨rd, hrd, hclearing, -⟩ := h.cleared b hb (by omega) hzero
  exact hclear rd hrd hclearing

/-- While nobody leaves, every addition to `read_offset` meets its assertion. -/
theorem Inv.advancesTo (h : Inv Q s) (hstay : s.Staying) (hrd : rd ∈ s.readers) :
    s.AdvancesTo rd := by
  simp only [State.AdvancesTo]
  split
  · rename_i hdr total hpc
    obtain ⟨b, hb⟩ := (h.reader rd hrd).clearing _ _ _ hpc
    rw [h.mark_eq_of_no_leave hstay hb.mem_log hb.live hb.none_pending, hb.total_eq, hb.passed]
    rfl
  · trivial

end

/-! ### Releasing committed blocks in order -/

variable (Q : RingSize)

/-- Readers join at any time and call `release_buffer` on the committed block at
their offset; writers reserve, wait, store and commit. -/
def ReleasesInOrder (s : State) : Action → Prop
  | .join => s.activeReaders < 255
  | .reserve size data => s.MayReserve Q size data
  | .callRelease r => ∀ rd ∈ s.readers[r]?, s.CommittedAt rd.absReadOffset
  | .loadReadOffset _ | .storeHeader _ | .finishSkip _ | .writeToBuffer _ | .releaseStep _ => True
  | _ => False

instance (s : State) (a : Action) : Decidable (ReleasesInOrder Q s a) := by
  apply Action.casesOn (motive := fun a => Decidable (ReleasesInOrder Q s a)) a <;> intros <;>
    dsimp only [ReleasesInOrder] <;> infer_instance

/-- What the releases of a run leave behind at every moment. -/
structure WatermarkInOrder (s : State) : Prop where
  counted : ∀ b ∈ s.log, s.readers.countP (·.countedIn b.offset) = b.numReaders
  no_wrap : ∀ rd ∈ s.readers, ∀ hdr, rd.pc = .releaseCalled hdr →
    0 < (numReaders s.mem hdr).toNat
  one_last : ∀ b ∈ s.log, s.Decremented b.offset → s.clears.count b.offset = 1
  none_before : ∀ b ∈ s.log, ¬ s.Decremented b.offset → s.clears.count b.offset = 0
  asserts : s.assertsHold = true
  boundary : s.readOffset = s.writeOffset ∨ ∃ b ∈ s.log, b.offset = s.readOffset
  released : ∀ b ∈ s.log, b.offset < s.readOffset → s.Released b.offset
  oldest : ∀ b ∈ s.log, s.readOffset ≤ b.offset → s.Decremented b.offset →
    b.offset = s.readOffset

section

variable {Q} {s : State}

theorem ReleasesInOrder.sound {a : Action} (hok : ReleasesInOrder Q s a) (h : Inv Q s)
    (hstay : s.Staying) : Sound Q s a := by
  cases a with
  | join => exact hok
  | reserve => exact hok
  | callRelease r =>
    intro rd hrd _
    exact (hok rd hrd).settledAt
  | releaseStep r =>
    intro rd hrd
    exact h.advancesTo hstay (List.mem_of_getElem? hrd)
  | loadReadOffset => trivial
  | storeHeader => trivial
  | finishSkip => trivial
  | writeToBuffer => trivial
  | abortBuffer => trivial
  | loadAbsOffset => trivial
  | leave => exact hok.elim
  | poll => exact hok.elim
  | loadCommitFlag => exact hok.elim
  | loadSizeAndType => exact hok.elim
  | drain => exact hok.elim

theorem invariant_of_releasesInOrder
    (hreach : Reach (step Q) (ReleasesInOrder Q) State.init s) :
    Inv Q s ∧ s.Staying ∧ ClearedOnce s := by
  have hinit : Inv Q State.init ∧ State.init.Staying ∧ ClearedOnce State.init :=
    ⟨.init, by simp [State.Staying, State.init], .init⟩
  refine hreach.invariant (P := fun s => Inv Q s ∧ s.Staying ∧ ClearedOnce s) hinit ?_
  rintro s a t ⟨h, hstay, honce⟩ hok hstep
  have hchange := (Taken.of_step hstep).change
  have h' := h.step (hok.sound h hstay) hstep
  refine ⟨h', hstay.step hchange ?_, honce.step h h' hchange⟩
  rintro r rfl
  exact hok

/-- Under every interleaving of the atomic steps of the readers' releases. -/
theorem watermarkInOrder (hreach : Reach (step Q) (ReleasesInOrder Q) State.init s) :
    WatermarkInOrder s := by
  obtain ⟨h, hstay, honce⟩ := invariant_of_releasesInOrder hreach
  refine
    { counted := honce.counted, no_wrap := ?_, one_last := ?_, none_before := ?_,
      asserts := h.asserts, boundary := h.mark, released := fun b hb => h.released_of_lt hb,
      oldest := ?_ }
  · intro rd hrd hdr hpc
    obtain ⟨b, hb⟩ := (h.reader rd hrd).owns hdr (Or.inr hpc)
    have hheader := h.header hrd hb.mem_log hb.settled hb.pending
    rw [hb.hdr_eq, hheader.count]
    exact hheader.pending_pos
  · intro b hb hall
    exact honce.once b hb ((h.decremented_iff hb).mp hall)
  · intro b hb hnot
    apply honce.not_yet b hb
    rw [h.decremented_iff hb] at hnot
    omega
  · intro b hb hlive hall
    exact (h.mark_eq_of_no_leave hstay hb hlive ((h.decremented_iff hb).mp hall)).symm

end

/-- Two readers inside `release_buffer` at two messages. The first has given up
both, the second is the last at the first one and has cleared its body; a third
reader joins. -/
theorem watermarkInOrder_two_readers : ∃ s, WatermarkInOrder s ∧ s.readOffset = 0 ∧
    s.clears = [0] ∧ s.readers.map Reader.pc = [.idle, .clearing .size 0 20, .idle] ∧
      s.readers.map Reader.decremented = [[0, 20], [0], []] := by
  let b : Block := ⟨0, 20, 2, 2, [7]⟩
  let c : Block := ⟨20, 19, 1, 2, [8]⟩
  let written (b : Block) : List Action :=
    [.reserve b.size b.data, .loadReadOffset b, .storeHeader b, .storeHeader b, .storeHeader b,
      .storeHeader b, .writeToBuffer b]
  let labels : List Action :=
    [.join, .join] ++ written b ++ written c ++
      [.callRelease 0, .releaseStep 0, .callRelease 1, .callRelease 0, .releaseStep 1,
        .releaseStep 0, .releaseStep 1, .join]
  have hexec : (exec (step .smallest) (ReleasesInOrder .smallest) State.init labels).any
      (fun s => decide (s.readOffset = 0 ∧ s.clears = [0] ∧
        s.readers.map Reader.pc = [.idle, .clearing .size 0 20, .idle] ∧
        s.readers.map Reader.decremented = [[0, 20], [0], []])) = true := by
    decide +kernel
  obtain ⟨s, hrun, hs⟩ := exists_run_of_exec hexec
  exact ⟨s, watermarkInOrder ⟨labels, hrun⟩, of_decide_eq_true hs⟩

/-! ### No overwrite -/

/-- No byte of the ring belongs to both blocks. -/
def Block.RingDisjoint (Q : RingSize) (b c : Block) : Prop :=
  ∀ i j, b.offset ≤ i → i < b.finish → c.offset ≤ j → j < c.finish → i % Q.bytes ≠ j % Q.bytes

section

variable {Q} {s : State} {b c : Block}

theorem Block.ringDisjoint_of_cells (hb : b.Shape Q) (hc : c.Shape Q)
    (h : b.hdr Q + b.length ≤ c.hdr Q ∨ c.hdr Q + c.length ≤ b.hdr Q) : b.RingDisjoint Q c := by
  intro i j hi hi' hj hj'
  rw [mod_eq_of_mem hb.fits hi hi', mod_eq_of_mem hc.fits hj hj']
  simp only [finish] at hi' hj'
  simp only [hdr] at h
  omega

/-- A writer past the wait loop has its range for itself until all readers have
released it, except for reservations behind it that still wait; and while it
waits, `e - read_offset` does not underflow. -/
theorem admitted_ringDisjoint (hreach : Reach (step Q) (ReleasesInOrder Q) State.init s) :
    (∀ b ∈ s.log, s.stage b.offset ≠ .waiting → ¬ s.Released b.offset →
      ∀ c ∈ s.log, c ≠ b → ¬ s.Released c.offset →
        c.offset < b.offset ∨ s.stage c.offset ≠ .waiting → b.RingDisjoint Q c) ∧
      ∀ b ∈ s.log, s.stage b.offset = .waiting →
        s.readOffset ≤ b.finish ∧ sub64 b.finish s.readOffset = b.finish - s.readOffset := by
  obtain ⟨h, -, -⟩ := invariant_of_releasesInOrder hreach
  have hlive : ∀ b ∈ s.log, ¬ s.Released b.offset → s.readOffset ≤ b.offset := by
    intro b hb hnot
    by_contra hlt
    exact hnot (h.released_of_lt hb (by omega))
  constructor
  · intro b hb hadmitted hbr c hc hne hcr hbehind
    have hbl := hlive b hb hbr
    have hcl := hlive c hc hcr
    have hbw := h.window b hb hadmitted
    have hcw : c.finish ≤ s.readOffset + Q.bytes := by
      rcases hbehind with hlt | hadmitted'
      · have hfin := h.finish_le_of_lt hc hb hlt
        simp only [Block.finish] at hfin hbw ⊢
        omega
      · exact h.window c hc hadmitted'
    exact Block.ringDisjoint_of_cells (h.shape b hb) (h.shape c hc)
      (h.ring_disjoint hb hc (Ne.symm hne) hbl hcl hbw hcw)
  · intro b hb hwaiting
    have hbl := (h.live_of_unsettled hb (by rw [hwaiting]; rfl)).1
    refine ⟨?_, h.sub64_finish hb hbl⟩
    simp only [Block.finish]
    omega

end

/-- Three reservations of 28 bytes in 64: a message, a skip message and a
message a lap ahead. -/
def threeReservations : List Block :=
  [⟨0, 46, 28, 1, []⟩, ⟨46, 18, 28, 1, []⟩, ⟨64, 46, 28, 1, []⟩]

/-- The reservation a lap ahead occupies the bytes of the one that is admitted. -/
theorem waiting_reservation_overlaps :
    ∃ s, Reach (step .smallest) (ReleasesInOrder .smallest) State.init s ∧
      ∃ b ∈ s.log, s.stage b.offset = .admitted ∧
        ∃ c ∈ s.log, c ≠ b ∧ ¬ s.Released c.offset ∧ ¬ b.RingDisjoint .smallest c := by
  let b : Block := ⟨0, 46, 28, 1, []⟩
  let c : Block := ⟨64, 46, 28, 1, []⟩
  let labels : List Action :=
    [.join, .reserve 28 [], .reserve 28 [], .reserve 28 [], .loadReadOffset b]
  have hexec : (exec (step .smallest) (ReleasesInOrder .smallest) State.init labels).any
      (fun s => decide (s.log = threeReservations ∧ s.stage 0 = .admitted ∧
        ∃ rd ∈ s.readers, rd.countedIn 64 = true ∧ 64 ∉ rd.decremented)) = true := by
    decide +kernel
  obtain ⟨s, hrun, hs⟩ := exists_run_of_exec hexec
  obtain ⟨hlog, hstage, rd, hrd, hcounted, hnot⟩ := of_decide_eq_true hs
  refine ⟨s, ⟨labels, hrun⟩, b, by simp [hlog, threeReservations, b], hstage, c,
    by simp [hlog, threeReservations, c], by decide, ?_, ?_⟩
  · intro hreleased
    exact hnot (hreleased rd hrd hcounted).1
  · intro hdisjoint
    exact hdisjoint 0 64 (by decide) (by decide) (by decide) (by decide) rfl

/-- The message and the skip message behind it are admitted side by side while
the third reservation waits. -/
theorem admitted_ringDisjoint_side_by_side :
    ∃ s : State, s.stage 0 = .admitted ∧ s.stage 46 = .admitted ∧
      Block.RingDisjoint .smallest ⟨0, 46, 28, 1, []⟩ ⟨46, 18, 28, 1, []⟩ ∧
      s.readOffset ≤ 110 := by
  let b : Block := ⟨0, 46, 28, 1, []⟩
  let pad : Block := ⟨46, 18, 28, 1, []⟩
  let c : Block := ⟨64, 46, 28, 1, []⟩
  let labels : List Action :=
    [.join, .reserve 28 [], .reserve 28 [], .reserve 28 [], .loadReadOffset b,
      .loadReadOffset pad, .loadReadOffset c]
  have hexec : (exec (step .smallest) (ReleasesInOrder .smallest) State.init labels).any
      (fun s => decide (s.log = threeReservations ∧ s.stage 0 = .admitted ∧
        s.stage 46 = .admitted ∧ s.stage 64 = .waiting ∧ ∃ rd ∈ s.readers,
          rd.countedIn 0 = true ∧ rd.countedIn 46 = true ∧ rd.decremented = [])) = true := by
    decide +kernel
  obtain ⟨s, hrun, hs⟩ := exists_run_of_exec hexec
  obtain ⟨hlog, hb, hpad, hc, rd, hrd, hcount0, hcount46, hnone⟩ := of_decide_eq_true hs
  obtain ⟨hdisjoint, hwait⟩ := admitted_ringDisjoint ⟨labels, hrun⟩
  have hnot0 : ¬ s.Released 0 := by
    intro hreleased
    have := (hreleased rd hrd hcount0).1
    simp [hnone] at this
  have hnot46 : ¬ s.Released 46 := by
    intro hreleased
    have := (hreleased rd hrd hcount46).1
    simp [hnone] at this
  refine ⟨s, hb, hpad, ?_, ?_⟩
  · apply hdisjoint b (by simp [hlog, threeReservations, b]) _ hnot0 pad
      (by simp [hlog, threeReservations, pad]) (by decide) hnot46
    · exact Or.inr (by rw [hpad]; decide)
    · rw [hb]
      decide
  · exact (hwait c (by simp [hlog, threeReservations, c]) hc).1

end MockExchange
