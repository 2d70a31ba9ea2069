import MockExchange.Invariant

/-!
# The writers' steps keep the invariant

Every step a writer takes on its own block is an instance of `Inv.owedStep`:
some reader still owes the block, the ring changes inside the block only, and
what the ring then holds of the block matches the writer's new stage. Joins and
reservations change the packed word and extend one of the two lists.
-/

namespace MockExchange

open ByteMemory Tiling MessageHeader Memory

section

variable {Q : RingSize} {s : State} {b : Block}

theorem Stage.ne_waiting_of_settled {st : Stage} (h : st.settled = true) : st ≠ .waiting := by
  rintro rfl
  cases h

/-- A step whose effects are all inside a block `b` that some reader still owes. -/
theorem Inv.owedStep (h : Inv Q s) (hb : b ∈ s.log) (howed : 0 < s.pendingCount b.offset)
    (hwindow : b.finish ≤ s.readOffset + Q.bytes)
    {mem' : Memory} {stage' : Stage} {asserts : Bool} (hasserts : asserts = true)
    (hsettles : (s.stage b.offset).settled = true → stage'.settled = true)
    (hframe : b.Frame Q s.mem mem')
    (hmem : BlockMem Q mem' b stage' (s.pendingCount b.offset)) :
    Inv Q { s with
      mem := mem', stage := Function.update s.stage b.offset stage', assertsHold := asserts } := by
  obtain ⟨rd, hrd, hp⟩ := State.pendingCount_pos_iff.mp howed
  have hlive := h.owed rd hrd b hb hp
  -- the other blocks keep their stage, and their bytes if they were admitted
  have hother : ∀ c ∈ s.log, c ≠ b → c.offset ≠ b.offset := by
    intro c hc hne heq
    exact hne (h.eq_of_offset_eq hc hb heq)
  have hstage : ∀ c ∈ s.log, c ≠ b →
      Function.update s.stage b.offset stage' c.offset = s.stage c.offset := by
    intro c hc hne
    exact Function.update_of_ne (hother c hc hne) _ _
  have hsettled : ∀ c ∈ s.log, (s.stage c.offset).settled = true →
      (Function.update s.stage b.offset stage' c.offset).settled = true := by
    intro c hc hst
    by_cases hne : c = b
    · rw [hne] at hst ⊢
      rw [Function.update_self]
      exact hsettles hst
    · rw [hstage c hc hne]
      exact hst
  have hbytes : ∀ c ∈ s.log, c ≠ b → s.readOffset ≤ c.offset → s.stage c.offset ≠ .waiting →
      SameOn s.mem mem' (c.hdr Q) c.length := by
    intro c hc hne hcl hst
    exact hframe.sameOn (h.shape c hc)
      (h.ring_disjoint hb hc hne.symm hlive hcl hwindow (h.window c hc hst))
  refine
    { tiles := h.tiles, word := h.word, shape := h.shape, counted := h.counted, room := h.room,
      mark := h.mark, owed := h.owed, cleared := h.cleared, one_clears := h.one_clears,
      asserts := hasserts, window := ?_, reader := ?_, unsettled := ?_, block := ?_ }
  · intro c hc hst
    by_cases hne : c = b
    · rw [hne]
      exact hwindow
    · have hst' : Function.update s.stage b.offset stage' c.offset ≠ .waiting := hst
      rw [hstage c hc hne] at hst'
      exact h.window c hc hst'
  · intro rd hrd
    refine (h.reader rd hrd).transfer _ rfl rfl hsettled ?_
    intro step hdr total c hc
    -- nobody owes a block that is being cleared
    have hne : c ≠ b := by
      rintro rfl
      have hnone := hc.none_pending
      omega
    have hsame := hbytes c hc.mem_log hne hc.live (Stage.ne_waiting_of_settled hc.settled)
    have hlen := (h.shape c hc.mem_log).length_ge
    refine ⟨hc.mem_log, hc.hdr_eq, hc.total_eq, hc.passed, hc.joined, hc.live, hc.none_pending,
      hsettled c hc.mem_log hc.settled, ?_⟩
    have hhdr := hc.hdr_eq
    subst hhdr
    exact hc.memory.congr (hsame.mono (Nat.le_refl _) (by omega))
  · intro c hc hst
    have hst' : (Function.update s.stage b.offset stage' c.offset).settled = false := hst
    apply h.unsettled c hc
    by_contra hdone
    rw [Bool.not_eq_false] at hdone
    rw [hsettled c hc hdone] at hst'
    cases hst'
  · intro c hc hcl
    by_cases hne : c = b
    · subst hne
      change BlockMem Q mem' c (Function.update s.stage c.offset stage' c.offset) _
      rw [Function.update_self]
      exact hmem
    · have hold := h.block c hc hcl
      simp only [hstage c hc hne]
      by_cases hst : s.stage c.offset = .waiting
      · rw [hst]
        exact BlockMem.of_rank_le_one (by decide)
      · exact hold.congr (h.shape c hc) (hbytes c hc hne hcl hst)

/-- A step of the writer of `b`, all of whose effects are inside `b`. -/
theorem Inv.blockStep (h : Inv Q s) (hb : b ∈ s.log)
    (hunsettled : (s.stage b.offset).settled = false)
    (hwindow : b.finish ≤ s.readOffset + Q.bytes)
    {mem' : Memory} {stage' : Stage} {asserts : Bool} (hasserts : asserts = true)
    (hframe : b.Frame Q s.mem mem')
    (hmem : BlockMem Q mem' b stage' (s.pendingCount b.offset)) :
    Inv Q { s with
      mem := mem', stage := Function.update s.stage b.offset stage', assertsHold := asserts } := by
  apply h.owedStep hb (h.live_of_unsettled hb hunsettled).2 hwindow hasserts _ hframe hmem
  intro hsettled
  rw [hunsettled] at hsettled
  cases hsettled

/-! ### Leaving the wait loop -/

/-- `read_offset` never passed the end of a reservation that still waits, so
the subtraction in the wait loop is exact. -/
theorem Inv.sub64_finish (h : Inv Q s) (hb : b ∈ s.log) (hlive : s.readOffset ≤ b.offset) :
    sub64 b.finish s.readOffset = b.finish - s.readOffset := by
  have hlt := h.finish_lt hb
  have hle : s.readOffset ≤ b.finish := by
    simp only [Block.finish]
    omega
  rw [sub64, Nat.sub_add_comm hle]
  have hbound : b.finish - s.readOffset < 2 ^ 64 := by omega
  rw [Nat.add_mod_right]
  exact Nat.mod_eq_of_lt hbound

theorem Inv.loadReadOffset (h : Inv Q s) (hb : s.AtStage b .waiting) :
    Inv Q (loadReadOffset Q s b) := by
  obtain ⟨hlog, hstage⟩ := hb
  have hunsettled : (s.stage b.offset).settled = false := by rw [hstage]; rfl
  have hlive := (h.live_of_unsettled hlog hunsettled).1
  simp only [MockExchange.loadReadOffset]
  split
  · exact h
  · rename_i hwait
    simp only [mustWait, decide_eq_true_eq, h.sub64_finish hlog hlive] at hwait
    exact h.blockStep hlog hunsettled (by omega) h.asserts Block.Frame.refl
      (BlockMem.of_rank_le_one (by decide))

/-! ### Storing the header -/

theorem Inv.window_of_stage (h : Inv Q s) {stage : Stage} (hb : s.AtStage b stage)
    (hne : stage ≠ .waiting) : b.finish ≤ s.readOffset + Q.bytes :=
  h.window b hb.1 (by rw [hb.2]; exact hne)

theorem Inv.blockMem_of_stage (h : Inv Q s) {stage : Stage} (hb : s.AtStage b stage)
    (hunsettled : stage.settled = false) :
    BlockMem Q s.mem b stage (s.pendingCount b.offset) := by
  have hst : (s.stage b.offset).settled = false := by rw [hb.2]; exact hunsettled
  have hmem := h.block b hb.1 (h.live_of_unsettled hb.1 hst).1
  rwa [hb.2] at hmem

/-- A header store stays before the commit flag of its own header. -/
theorem storeHeader_eq (hwriting : (s.stage b.offset).isWritingHeader = true) :
    ∃ stage' m', storeHeader Q s b = { s.setStage b stage' with mem := m' } ∧
      stage'.settled = false ∧ stage' ≠ .waiting ∧ SameOutside s.mem m' (b.hdr Q) 17 := by
  cases hstage : s.stage b.offset with
  | admitted =>
    have hout := setAbsOffset_sameOutside s.mem (b.hdr Q) b.offset
    exact ⟨.offsetStored, _, by simp only [storeHeader, hstage], rfl, by decide,
      hout.mono (by omega) (by omega)⟩
  | offsetStored =>
    have hout := setMessageSize_sameOutside s.mem (b.hdr Q) (b.messageSize Q)
    exact ⟨.sizeStored, _, by simp only [storeHeader, hstage], rfl, by decide,
      hout.mono (by omega) (by omega)⟩
  | sizeStored =>
    have hout := setType_sameOutside s.mem (b.hdr Q) (b.type Q)
    exact ⟨.typeStored, _, by simp only [storeHeader, hstage], rfl, by decide,
      hout.mono (by omega) (by omega)⟩
  | typeStored =>
    have hout := setNumReaders_sameOutside s.mem (b.hdr Q) (UInt8.ofNat b.numReaders)
    exact ⟨.claimed, _, by simp only [storeHeader, hstage], rfl, by decide,
      hout.mono (by omega) (by omega)⟩
  | _ => simp [hstage, Stage.isWritingHeader] at hwriting

/-- A header store leaves the fields it does not write. -/
theorem Inv.storeHeader (h : Inv Q s) (hlog : b ∈ s.log)
    (hwriting : (s.stage b.offset).isWritingHeader = true) : Inv Q (storeHeader Q s b) := by
  have hshape := h.shape b hlog
  have hlen := hshape.length_ge
  cases hstage : s.stage b.offset with
  | admitted =>
    have hb : s.AtStage b .admitted := ⟨hlog, hstage⟩
    simp only [MockExchange.storeHeader, hstage]
    have hout := setAbsOffset_sameOutside s.mem (b.hdr Q) b.offset
    apply h.blockStep hlog (by rw [hstage]; rfl) (h.window_of_stage hb (by decide)) h.asserts
      (.of_sameOutside hout (by omega) (by omega))
    have hlt := h.finish_lt hlog
    refine
      { absOffset := fun _ _ => absOffset_set ?_, messageSize := ?_, type := ?_, numReaders := ?_,
        commitFlag := ?_, data := ?_ }
    · simp only [Block.finish] at hlt
      omega
    all_goals simp [Stage.rank, Stage.settled]
  | offsetStored =>
    have hb : s.AtStage b .offsetStored := ⟨hlog, hstage⟩
    have hmem := h.blockMem_of_stage hb rfl
    simp only [MockExchange.storeHeader, hstage]
    have hout := setMessageSize_sameOutside s.mem (b.hdr Q) (b.messageSize Q)
    apply h.blockStep hlog (by rw [hstage]; rfl) (h.window_of_stage hb (by decide)) h.asserts
      (.of_sameOutside hout (by omega) (by omega))
    refine
      { absOffset := ?_, messageSize := fun _ _ => messageSize_set hshape.messageSize_lt,
        type := ?_, numReaders := ?_, commitFlag := ?_, data := ?_ }
    · intro _ hn
      rw [absOffset_congr (hout.sameOn (by omega))]
      exact hmem.absOffset (by decide) hn
    all_goals simp [Stage.rank, Stage.settled]
  | sizeStored =>
    have hb : s.AtStage b .sizeStored := ⟨hlog, hstage⟩
    have hmem := h.blockMem_of_stage hb rfl
    simp only [MockExchange.storeHeader, hstage]
    have hout := setType_sameOutside s.mem (b.hdr Q) (b.type Q)
    apply h.blockStep hlog (by rw [hstage]; rfl) (h.window_of_stage hb (by decide)) h.asserts
      (.of_sameOutside hout (by omega) (by omega))
    refine
      { absOffset := ?_, messageSize := ?_, type := fun _ _ => type_set _, numReaders := ?_,
        commitFlag := ?_, data := ?_ }
    · intro _ hn
      rw [absOffset_congr (hout.sameOn (by omega))]
      exact hmem.absOffset (by decide) hn
    · intro _ hn
      rw [messageSize_congr (hout.sameOn (by omega))]
      exact hmem.messageSize (by decide) hn
    all_goals simp [Stage.rank, Stage.settled]
  | typeStored =>
    have hb : s.AtStage b .typeStored := ⟨hlog, hstage⟩
    have hmem := h.blockMem_of_stage hb rfl
    simp only [MockExchange.storeHeader, hstage]
    have hout := setNumReaders_sameOutside s.mem (b.hdr Q) (UInt8.ofNat b.numReaders)
    apply h.blockStep hlog (by rw [hstage]; rfl) (h.window_of_stage hb (by decide)) h.asserts
      (.of_sameOutside hout (by omega) (by omega))
    -- nobody passed the block yet, so every counted reader is pending
    have hcount := h.unsettled b hlog (by rw [hstage]; rfl)
    refine
      { absOffset := ?_, messageSize := ?_, type := ?_, numReaders := ?_, commitFlag := ?_,
        data := ?_ }
    · intro _ hn
      rw [absOffset_congr (hout.sameOn (by omega))]
      exact hmem.absOffset (by decide) hn
    · intro _ hn
      rw [messageSize_congr (hout.sameOn (by omega))]
      exact hmem.messageSize (by decide) hn
    · intro _ hn
      rw [type_congr (hout.sameOn (by omega))]
      exact hmem.type (by decide) hn
    · intro _
      have hlt := (h.counted b hlog).2
      rw [numReaders_set, hcount, UInt8.toNat_ofNat', Nat.mod_eq_of_lt hlt]
    all_goals simp [Stage.settled]
  | waiting => simp [hstage, Stage.isWritingHeader] at hwriting
  | claimed => simp [hstage, Stage.isWritingHeader] at hwriting
  | committed => simp [hstage, Stage.isWritingHeader] at hwriting
  | aborted => simp [hstage, Stage.isWritingHeader] at hwriting

/-! ### Settling a block -/

/-- What the header of a claimed block keeps when a step of its writer stays
behind it. -/
theorem BlockMem.rewrite {m m' : Memory} {stage stage' : Stage} {n : Nat}
    (h : BlockMem Q m b stage n) (hclaimed : 5 ≤ stage.rank) (hsame : SameOn m m' (b.hdr Q) 17)
    (hflag : stage'.settled = true → 0 < n →
      MessageHeader.commitFlag m' (b.hdr Q) = stage'.flag.toByte)
    (hdata : stage' = .committed → b.isPadding Q = false →
      payload m' (b.hdr Q) b.data.length = b.data) : BlockMem Q m' b stage' n := by
  refine
    { absOffset := ?_, messageSize := ?_, type := ?_, numReaders := ?_,
      commitFlag := hflag, data := fun hst hpad _ => hdata hst hpad }
  · intro _ hn
    rw [absOffset_congr (hsame.mono (by omega) (by omega))]
    exact h.absOffset (by omega) hn
  · intro _ hn
    rw [messageSize_congr (hsame.mono (by omega) (by omega))]
    exact h.messageSize (by omega) hn
  · intro _ hn
    rw [type_congr (hsame.mono (by omega) (by omega))]
    exact h.type (by omega) hn
  · intro _
    rw [numReaders_congr (hsame.mono (by omega) (by omega))]
    exact h.numReaders hclaimed

theorem BlockMem.settle {m m' : Memory} (stage' : Stage) {n : Nat}
    (h : BlockMem Q m b .claimed n)
    (hflag : MessageHeader.commitFlag m' (b.hdr Q) = stage'.flag.toByte)
    (hsame : SameOn m m' (b.hdr Q) 17)
    (hdata : stage' = .committed → b.isPadding Q = false →
      payload m' (b.hdr Q) b.data.length = b.data) : BlockMem Q m' b stage' n :=
  h.rewrite (by decide) hsame (fun _ _ => hflag) hdata

/-- `insert_skip_message` clears from 324 bytes behind the header on, past the
ring's end; inside the ring that is still its own block. -/
theorem finishSkip_frame (hshape : b.Shape Q) (hpad : b.isPadding Q = true) {m : Memory} :
    b.Frame Q m (m.fill (b.hdr Q + sizeofMessageHeader * sizeofMessageHeader)
      (b.messageSize Q) 0) := by
  rcases hshape.cases with ⟨hpad', -, -⟩ | ⟨-, hend, -⟩
  · rw [hpad] at hpad'
    cases hpad'
  · exact .of_sameOutside (fill_sameOutside 0) (Nat.le_add_right _ _) (Or.inr (by omega))

theorem finishSkip_mem_frame (hshape : b.Shape Q) (hpad : b.isPadding Q = true) :
    b.Frame Q s.mem (finishSkip Q s b).mem := by
  have hlen := hshape.length_ge
  have hflag := setCommitFlag_sameOutside (s.mem.fill
    (b.hdr Q + sizeofMessageHeader * sizeofMessageHeader) (b.messageSize Q) 0)
    (b.hdr Q) .readyForConsumer
  exact (finishSkip_frame hshape hpad).trans (.of_sameOutside hflag (by omega) (by omega))

theorem writeToBuffer_mem_frame (hshape : b.Shape Q) (hpad : b.isPadding Q = false) :
    b.Frame Q s.mem (writeToBuffer Q s b).mem := by
  have hlen := hshape.length_ge
  have hfits := hshape.data_fits hpad
  have hwrite := write_sameOutside (m := s.mem) (a := b.hdr Q + sizeofMessageHeader) b.data
  have hflag := setCommitFlag_sameOutside
    (s.mem.write (b.hdr Q + sizeofMessageHeader) b.data) (b.hdr Q) .readyForConsumer
  simp only [sizeofMessageHeader] at hwrite hflag
  exact (Block.Frame.of_sameOutside hwrite (by omega) (by omega)).trans
    (.of_sameOutside hflag (by omega) (by omega))

theorem abortBuffer_mem_frame (hshape : b.Shape Q)
    (hsize : messageSize s.mem (b.hdr Q) = b.messageSize Q) :
    b.Frame Q s.mem (abortBuffer Q s b).mem := by
  have hadd := hshape.messageSize_add
  have hclear := fill_sameOutside (m := s.mem) (a := b.hdr Q + sizeofMessageHeader)
    (n := messageSize s.mem (b.hdr Q)) 0
  have hflag := setCommitFlag_sameOutside (s.mem.fill (b.hdr Q + sizeofMessageHeader)
    (messageSize s.mem (b.hdr Q)) 0) (b.hdr Q) .aborted
  simp only [sizeofMessageHeader] at hclear hflag
  exact (Block.Frame.of_sameOutside hclear (by omega) (by omega)).trans
    (.of_sameOutside hflag (by omega) (by omega))

theorem Inv.finishSkip (h : Inv Q s) (hb : s.AtStage b .claimed)
    (hpad : b.isPadding Q = true) : Inv Q (finishSkip Q s b) := by
  have hshape := h.shape b hb.1
  have hlen := hshape.length_ge
  have hmem := h.blockMem_of_stage hb rfl
  have hclear := fill_sameOutside (m := s.mem)
    (a := b.hdr Q + sizeofMessageHeader * sizeofMessageHeader) (n := b.messageSize Q) 0
  have hflag := setCommitFlag_sameOutside (s.mem.fill
    (b.hdr Q + sizeofMessageHeader * sizeofMessageHeader) (b.messageSize Q) 0)
    (b.hdr Q) .readyForConsumer
  apply h.blockStep hb.1 (by rw [hb.2]; rfl) (h.window_of_stage hb (by decide)) h.asserts
  · exact finishSkip_mem_frame hshape hpad
  · apply hmem.settle .committed (commitFlag_set _)
    · refine (hclear.sameOn (Or.inl ?_)).trans (hflag.sameOn (Or.inl (by omega)))
      simp only [sizeofMessageHeader]
      omega
    · intro _ hpad'
      rw [hpad] at hpad'
      cases hpad'

theorem Inv.writeToBuffer (h : Inv Q s) (hb : s.AtStage b .claimed)
    (hpad : b.isPadding Q = false) : Inv Q (writeToBuffer Q s b) := by
  have hshape := h.shape b hb.1
  have hfits := hshape.data_fits hpad
  have hmem := h.blockMem_of_stage hb rfl
  have hwrite := write_sameOutside (m := s.mem) (a := b.hdr Q + sizeofMessageHeader) b.data
  have hflag := setCommitFlag_sameOutside
    (s.mem.write (b.hdr Q + sizeofMessageHeader) b.data) (b.hdr Q) .readyForConsumer
  simp only [sizeofMessageHeader] at hwrite hflag
  apply h.blockStep hb.1 (by rw [hb.2]; rfl) (h.window_of_stage hb (by decide))
  · rw [h.asserts, Bool.true_and]
    exact decide_eq_true hfits
  · exact writeToBuffer_mem_frame hshape hpad
  · apply hmem.settle .committed (commitFlag_set _)
    · exact (hwrite.sameOn (Or.inl (by omega))).trans (hflag.sameOn (Or.inl (by omega)))
    · intro _ _
      exact (payload_congr (hflag.sameOn (Or.inr (by omega)))).trans (bytes_write_same b.data)

theorem Inv.abortBuffer (h : Inv Q s) (hb : s.AtStage b .claimed) : Inv Q (abortBuffer Q s b) := by
  have hshape := h.shape b hb.1
  have hadd := hshape.messageSize_add
  have hmem := h.blockMem_of_stage hb rfl
  have hpos := (h.live_of_unsettled hb.1 (by rw [hb.2]; rfl)).2
  have hsize := hmem.messageSize (by decide) hpos
  have hclear := fill_sameOutside (m := s.mem) (a := b.hdr Q + sizeofMessageHeader)
    (n := messageSize s.mem (b.hdr Q)) 0
  have hflag := setCommitFlag_sameOutside (s.mem.fill (b.hdr Q + sizeofMessageHeader)
    (messageSize s.mem (b.hdr Q)) 0) (b.hdr Q) .aborted
  simp only [sizeofMessageHeader] at hclear hflag
  apply h.blockStep hb.1 (by rw [hb.2]; rfl) (h.window_of_stage hb (by decide)) h.asserts
  · exact abortBuffer_mem_frame hshape hsize
  · apply hmem.settle .aborted (commitFlag_set _)
    · exact (hclear.sameOn (Or.inl (by omega))).trans (hflag.sameOn (Or.inl (by omega)))
    · intro hst
      cases hst

/-! ### Joining and reserving -/

theorem Inv.offset_lt (h : Inv Q s) (hb : b ∈ s.log) : b.offset < s.writeOffset := by
  have hbounds := h.tiles.bounds hb
  omega

theorem readerInv_joinedAt : ReaderInv Q s (.joinedAt s.writeOffset) := by
  refine
    { join_le := Nat.le_refl _, boundary := Or.inl rfl, limit := ?_, settled := ?_,
      decremented := ?_, close := ?_, owns := ?_, clearing := ?_, staying := fun _ => rfl,
      leaving := ?_, closed := ?_ }
  · intro e he
    cases he
  · intro b hb hlo hhi
    exact absurd (Nat.lt_of_lt_of_le hhi hlo) (Nat.lt_irrefl _)
  · simp [State.offsetsIn, Reader.joinedAt]
  · intro a before hclose
    cases hclose
  · rintro hdr (hpc | hpc) <;> cases hpc
  · intro step hdr total hpc
    cases hpc
  · rintro (hpc | hpc) <;> cases hpc
  · intro hpc
    cases hpc

/-- A reader that joins owes none of the blocks reserved before. -/
theorem Reader.joinedAt_pending {off : Nat} (hoff : off < s.writeOffset) :
    (Reader.joinedAt s.writeOffset).pending off = false := by
  have hlt : ¬ s.writeOffset ≤ off := by omega
  simp [Reader.pending, Reader.joinedAt, hlt]

theorem join_readers : (join s).readers = s.readers ++ [.joinedAt s.writeOffset] := rfl

theorem Inv.pendingCount_join (h : Inv Q s) (hb : b ∈ s.log) :
    (MockExchange.join s).pendingCount b.offset = s.pendingCount b.offset := by
  rw [State.pendingCount, join_readers, List.countP_append, List.countP_singleton,
    Reader.joinedAt_pending (h.offset_lt hb)]
  rfl

/-- A join: the new reader starts behind every reservation, so it is counted
in none of them. -/
theorem Inv.join (h : Inv Q s) (hroom : s.readers.countP Reader.active + 1 < 256) :
    Inv Q (join s) := by
  have hword := h.word.returnAddReader hroom
  have hwrite : (MockExchange.join s).writeOffset = s.writeOffset := hword.writeOffset
  have hreaders := join_readers (s := s)
  have hmem : ∀ rd ∈ (MockExchange.join s).readers,
      rd ∈ s.readers ∨ rd = .joinedAt s.writeOffset := by
    intro rd hrd
    rw [hreaders, List.mem_append, List.mem_singleton] at hrd
    exact hrd
  refine
    { tiles := ?_, word := ?_, shape := h.shape, counted := h.counted, room := ?_, mark := ?_,
      window := h.window, owed := ?_, reader := ?_, unsettled := ?_, block := ?_, cleared := ?_,
      one_clears := ?_, asserts := h.asserts }
  · rw [hwrite]
    exact h.tiles
  · rw [hwrite, hreaders, List.countP_append]
    exact hword
  · rw [hwrite]
    exact h.room
  · rw [hwrite]
    exact h.mark
  · intro rd hrd b hb hp
    rcases hmem rd hrd with hold | rfl
    · exact h.owed rd hold b hb hp
    · rw [Reader.joinedAt_pending (h.offset_lt hb)] at hp
      cases hp
  · intro rd hrd
    have hr : ReaderInv Q s rd := by
      rcases hmem rd hrd with hold | rfl
      · exact h.reader rd hold
      · exact readerInv_joinedAt
    apply hr.transfer (MockExchange.join s) rfl hwrite (fun _ _ hst => hst)
    intro step hdr total b hb
    refine ⟨hb.mem_log, hb.hdr_eq, hb.total_eq, hb.passed, hb.joined, hb.live, ?_, hb.settled,
      hb.memory⟩
    rw [h.pendingCount_join hb.mem_log]
    exact hb.none_pending
  · intro b hb hst
    rw [h.pendingCount_join hb]
    exact h.unsettled b hb hst
  · intro b hb hlive
    rw [h.pendingCount_join hb]
    exact h.block b hb hlive
  · intro b hb hlive hzero
    rw [h.pendingCount_join hb] at hzero
    obtain ⟨rd, hrd, hclears⟩ := h.cleared b hb hlive hzero
    exact ⟨rd, List.mem_append_left _ hrd, hclears⟩
  · intro i j rd rd' hi hj hrd hrd' heq
    -- a reader that is clearing is not the new one
    have hfind : ∀ (k : Nat) (x : Reader), (MockExchange.join s).readers[k]? = some x →
        x.isClearing → s.readers[k]? = some x := by
      intro k x hk hx
      rw [hreaders, List.getElem?_append] at hk
      split at hk
      · exact hk
      · obtain ⟨step, hdr, total, hpc⟩ := hx
        rcases List.mem_singleton.mp (List.mem_of_getElem? hk) with rfl
        cases hpc
    exact h.one_clears i j rd rd' (hfind i rd hi hrd) (hfind j rd' hj hrd') hrd hrd' heq

/-- The block a reservation makes has the shape the reservation loop gives it. -/
theorem Inv.newBlock_shape (h : Inv Q s) {size : Nat} {data : List UInt8} (hpos : 0 < size)
    (hle : size ≤ Q.bytes - 18) (hdata : data.length ≤ size) :
    (newBlock Q s size data).Shape Q where
  size_pos := hpos
  size_le := hle
  data_le := hdata
  length_eq := rfl
  room := h.room

/-- A reservation: the new block counts exactly the readers that are joined,
and none of them has passed it. -/
theorem Inv.reserve (h : Inv Q s) {size : Nat} {data : List UInt8} (hpos : 0 < size)
    (hle : size ≤ Q.bytes - 18) (hdata : data.length ≤ size)
    (hreaders : 0 < s.readers.countP Reader.active)
    (htotal : (newBlock Q s size data).finish < 2 ^ 56) : Inv Q (reserve Q s size data) := by
  generalize hnew : newBlock Q s size data = new at htotal
  have hshape : new.Shape Q := hnew ▸ h.newBlock_shape hpos hle hdata
  have hoffset : new.offset = s.writeOffset := by rw [← hnew]; rfl
  have hcounted : new.numReaders = s.readers.countP Reader.active := by
    rw [← hnew]
    exact h.word.numReaders
  have hlen := hshape.length_ge
  have hfinish : new.finish = s.writeOffset + new.length := by rw [Block.finish, hoffset]
  have hlength : (UInt64.ofNat new.length).toNat = new.length := by
    rw [UInt64.toNat_ofNat', Nat.mod_eq_of_lt (by omega)]
  have hword := h.word.returnAddOffset (k := UInt64.ofNat new.length) (by omega)
  rw [hlength, ← hfinish] at hword
  have hstate : MockExchange.reserve Q s size data =
      { s with
        readersAndWriteOffset := ((UnpackedReadersAndWriterOffset.unwrap
          s.readersAndWriteOffset).returnAddOffset (UInt64.ofNat new.length)).2
        log := s.log ++ [new]
        stage := Function.update s.stage new.offset .waiting } := by
    subst hnew
    rfl
  rw [hstate]
  generalize ((UnpackedReadersAndWriterOffset.unwrap
    s.readersAndWriteOffset).returnAddOffset (UInt64.ofNat new.length)).2 = v at hword
  have hwrite : (UnpackedReadersAndWriterOffset.unwrap v).writeOffset.toNat = new.finish :=
    hword.writeOffset
  -- the old blocks lie below the new one, so they keep their stage
  have hlt : ∀ b ∈ s.log, b.offset < new.offset := by
    intro b hb
    rw [hoffset]
    exact h.offset_lt hb
  have hstage : ∀ b ∈ s.log,
      Function.update s.stage new.offset .waiting b.offset = s.stage b.offset := by
    intro b hb
    exact Function.update_of_ne (Nat.ne_of_lt (hlt b hb)) _ _
  have hstage_new : Function.update s.stage new.offset .waiting new.offset = .waiting :=
    Function.update_self _ _ _
  have hmem : ∀ b, b ∈ s.log ++ [new] → b ∈ s.log ∨ b = new := by
    intro b hb
    rwa [List.mem_append, List.mem_singleton] at hb
  have hboundary : ∀ p, Boundary Block.offset s.log s.writeOffset p →
      Boundary Block.offset (s.log ++ [new]) new.finish p :=
    fun p hp => hp.append hoffset _
  -- a reader owes the new block exactly if it has not left
  have hpending : ∀ rd ∈ s.readers, rd.pending new.offset = rd.active := by
    intro rd hrd
    have hr := h.reader rd hrd
    have hpos := hr.boundary.le h.tiles
    rw [hoffset]
    cases hleave : rd.leaveOffset with
    | none => simp [Reader.pending, Reader.active, hleave, hpos]
    | some e =>
      have he := (hr.limit e hleave).2.le h.tiles
      have hlt' : ¬ s.writeOffset < e := by omega
      simp [Reader.pending, Reader.active, hleave, hlt']
  have hcount : s.readers.countP (·.pending new.offset) = new.numReaders := by
    rw [hcounted]
    exact List.countP_congr fun rd hrd => by rw [hpending rd hrd]
  refine
    { tiles := ?_, word := ?_, shape := ?_, counted := ?_, room := ?_, mark := ?_,
      window := ?_, owed := ?_, reader := ?_, unsettled := ?_, block := ?_, cleared := ?_,
      one_clears := h.one_clears, asserts := h.asserts }
  · change Tiles _ _ _ _ (UnpackedReadersAndWriterOffset.unwrap v).writeOffset.toNat
    rw [hwrite, hfinish]
    exact h.tiles.append hoffset (by omega)
  · change Packs v _ (UnpackedReadersAndWriterOffset.unwrap v).writeOffset.toNat
    rw [hwrite]
    exact hword
  · intro b hb
    rcases hmem b hb with hold | rfl
    · exact h.shape b hold
    · exact hshape
  · intro b hb
    rcases hmem b hb with hold | rfl
    · exact h.counted b hold
    · rw [hcounted]
      exact ⟨hreaders, h.word.readers_lt⟩
  · change (UnpackedReadersAndWriterOffset.unwrap v).writeOffset.toNat % _ + 18 ≤ _
    rw [hwrite]
    exact hshape.room_finish
  · change Boundary _ _ (UnpackedReadersAndWriterOffset.unwrap v).writeOffset.toNat _
    rw [hwrite]
    exact hboundary _ h.mark
  · intro b hb hst
    rcases hmem b hb with hold | rfl
    · have hst' : Function.update s.stage new.offset .waiting b.offset ≠ .waiting := hst
      rw [hstage b hold] at hst'
      exact h.window b hold hst'
    · exact absurd hstage_new hst
  · intro rd hrd b hb hp
    rcases hmem b hb with hold | rfl
    · exact h.owed rd hrd b hold hp
    · rw [hoffset]
      exact h.mark.le h.tiles
  · intro rd hrd
    have hr := h.reader rd hrd
    have hpos := hr.boundary.le h.tiles
    have hslice : ∀ c d, d ≤ s.writeOffset →
        (slice Block.offset (s.log ++ [new]) c d).map Block.offset = s.offsetsIn c d := by
      intro c d hd
      rw [slice_append_of_le (by omega)]
      rfl
    refine
      { join_le := hr.join_le, boundary := ?_, limit := ?_, settled := ?_, decremented := ?_,
        close := ?_, owns := ?_, clearing := ?_, staying := hr.staying, leaving := hr.leaving,
        closed := hr.closed }
    · change Boundary _ _ (UnpackedReadersAndWriterOffset.unwrap v).writeOffset.toNat _
      rw [hwrite]
      exact hboundary _ hr.boundary
    · intro e he
      change _ ∧ Boundary _ _ (UnpackedReadersAndWriterOffset.unwrap v).writeOffset.toNat _
      rw [hwrite]
      exact ⟨(hr.limit e he).1, hboundary _ (hr.limit e he).2⟩
    · intro b hb hlo hhi
      rcases hmem b hb with hold | rfl
      · change (Function.update s.stage new.offset .waiting b.offset).settled = true
        rw [hstage b hold]
        exact hr.settled b hold hlo hhi
      · omega
    · exact hr.decremented.trans (hslice _ _ hpos).symm
    · intro a before hclose
      obtain ⟨hja, hap, hbefore⟩ := hr.close a before hclose
      exact ⟨hja, hap, hbefore.trans (hslice _ _ (by omega)).symm⟩
    · intro hdr hpc
      obtain ⟨b, hb⟩ := hr.owns hdr hpc
      refine ⟨b, List.mem_append_left _ hb.mem_log, hb.hdr_eq, hb.position, ?_, hb.pending⟩
      change (Function.update s.stage new.offset .waiting b.offset).settled = true
      rw [hstage b hb.mem_log]
      exact hb.settled
    · intro step hdr total hpc
      obtain ⟨b, hb⟩ := hr.clearing step hdr total hpc
      refine ⟨b, List.mem_append_left _ hb.mem_log, hb.hdr_eq, hb.total_eq, hb.passed, hb.joined,
        hb.live, hb.none_pending, ?_, hb.memory⟩
      change (Function.update s.stage new.offset .waiting b.offset).settled = true
      rw [hstage b hb.mem_log]
      exact hb.settled
  · intro b hb hst
    rcases hmem b hb with hold | rfl
    · have hst' : (Function.update s.stage new.offset .waiting b.offset).settled = false := hst
      rw [hstage b hold] at hst'
      exact h.unsettled b hold hst'
    · exact hcount
  · intro b hb hlive
    rcases hmem b hb with hold | rfl
    · change BlockMem Q s.mem b (Function.update s.stage new.offset .waiting b.offset) _
      rw [hstage b hold]
      exact h.block b hold hlive
    · change BlockMem Q s.mem b (Function.update s.stage b.offset .waiting b.offset) _
      rw [hstage_new]
      exact BlockMem.of_rank_le_one (by decide)
  · intro b hb hlive hzero
    rcases hmem b hb with hold | rfl
    · exact h.cleared b hold hlive hzero
    · have hzero' : s.readers.countP (·.pending b.offset) = 0 := hzero
      omega

end

end MockExchange
