import MockExchange.Operations

/-!
# Serving one block

What a whole claim makes of the queue when it need not wait, and what a whole
`release_buffer` makes of it when its caller is the last reader. Nothing here
depends on the queue invariant, so it also says what happens to offsets that
have wrapped around.
-/

namespace MockExchange

open ByteMemory Tiling MessageHeader Memory Transition ListUpdate

/-- The four header stores of `b`. -/
def Block.writeHeader (Q : RingSize) (b : Block) (m : Memory) : Memory :=
  setNumReaders (setType (setMessageSize (setAbsOffset m (b.hdr Q) b.offset) (b.hdr Q)
    (b.messageSize Q)) (b.hdr Q) (b.type Q)) (b.hdr Q) (UInt8.ofNat b.numReaders)

/-- `t` is `s` with `b` committed, as its writer and its readers see it. -/
structure Commits (Q : RingSize) (s : State) (b : Block) (t : State) : Prop where
  memory : BlockMem Q t.mem b .committed b.numReaders
  frame : b.Frame Q s.mem t.mem
  rest : t = { s with
    mem := t.mem
    stage := Function.update s.stage b.offset .committed
    assertsHold := t.assertsHold }

/-- `t` is `s` after the last reader of the `total` bytes at `hdr` released them. -/
structure ReleasesLast (s : State) (r : Nat) (rd : Reader) (hdr total : Nat) (t : State) :
    Prop where
  flag : commitFlag t.mem hdr = 0
  outside : SameOutside s.mem t.mem hdr total
  rest : t = { s with
    mem := t.mem
    readOffset := add64 s.readOffset total
    readers := s.readers.set r { rd with
      absReadOffset := add64 rd.absReadOffset total
      decremented := rd.decremented ++ [absOffset s.mem hdr]
      pc := .idle }
    clears := s.clears ++ [absOffset s.mem hdr]
    assertsHold := t.assertsHold }

section

variable {Q : RingSize} {s t : State} {b : Block} {r : Nat} {rd : Reader}

/-! ### What stays -/

theorem Commits.log (h : Commits Q s b t) : t.log = s.log := by rw [h.rest]

theorem Commits.word (h : Commits Q s b t) :
    t.readersAndWriteOffset = s.readersAndWriteOffset := by rw [h.rest]

theorem Commits.stage (h : Commits Q s b t) :
    t.stage = Function.update s.stage b.offset .committed := by rw [h.rest]

variable {hdr total : Nat}

theorem ReleasesLast.log (h : ReleasesLast s r rd hdr total t) : t.log = s.log := by rw [h.rest]

theorem ReleasesLast.word (h : ReleasesLast s r rd hdr total t) :
    t.readersAndWriteOffset = s.readersAndWriteOffset := by rw [h.rest]

theorem ReleasesLast.stage (h : ReleasesLast s r rd hdr total t) : t.stage = s.stage := by
  rw [h.rest]

theorem ReleasesLast.readOffset (h : ReleasesLast s r rd hdr total t) :
    t.readOffset = add64 s.readOffset total := by rw [h.rest]

theorem ReleasesLast.readers (h : ReleasesLast s r rd hdr total t) :
    t.readers = s.readers.set r { rd with
      absReadOffset := add64 rd.absReadOffset total
      decremented := rd.decremented ++ [absOffset s.mem hdr]
      pc := .idle } := by
  rw [h.rest]

/-! ### A claim that need not wait -/

theorem Block.Shape.writeHeader_frame (h : b.Shape Q) (m : Memory) :
    b.Frame Q m (b.writeHeader Q m) := by
  have hlen := h.length_ge
  have hoff := setAbsOffset_sameOutside m (b.hdr Q) b.offset
  have hsize := setMessageSize_sameOutside (setAbsOffset m (b.hdr Q) b.offset) (b.hdr Q)
    (b.messageSize Q)
  have htype := setType_sameOutside (setMessageSize (setAbsOffset m (b.hdr Q) b.offset) (b.hdr Q)
    (b.messageSize Q)) (b.hdr Q) (b.type Q)
  have hcount := setNumReaders_sameOutside (setType (setMessageSize (setAbsOffset m (b.hdr Q)
    b.offset) (b.hdr Q) (b.messageSize Q)) (b.hdr Q) (b.type Q)) (b.hdr Q)
    (UInt8.ofNat b.numReaders)
  have hframe : ∀ {m m' : Memory} {a n : Nat}, SameOutside m m' a n → b.hdr Q ≤ a →
      a + n ≤ b.hdr Q + 18 → b.Frame Q m m' :=
    fun hout hlo hhi => .of_sameOutside hout hlo (Or.inl (by omega))
  exact (hframe hoff (by omega) (by omega)).trans ((hframe hsize (by omega) (by omega)).trans
    ((hframe htype (by omega) (by omega)).trans (hframe hcount (by omega) (by omega))))

theorem Block.Shape.writeHeader_mem (h : b.Shape Q) (hoffset : b.offset < 2 ^ 64)
    (hcount : b.numReaders < 256) (m : Memory) :
    BlockMem Q (b.writeHeader Q m) b .claimed b.numReaders := by
  have hsize := setMessageSize_sameOutside (setAbsOffset m (b.hdr Q) b.offset) (b.hdr Q)
    (b.messageSize Q)
  have htype := setType_sameOutside (setMessageSize (setAbsOffset m (b.hdr Q) b.offset) (b.hdr Q)
    (b.messageSize Q)) (b.hdr Q) (b.type Q)
  have hreaders := setNumReaders_sameOutside (setType (setMessageSize (setAbsOffset m (b.hdr Q)
    b.offset) (b.hdr Q) (b.messageSize Q)) (b.hdr Q) (b.type Q)) (b.hdr Q)
    (UInt8.ofNat b.numReaders)
  refine
    { absOffset := ?_, messageSize := ?_, type := ?_, numReaders := ?_, commitFlag := ?_,
      data := ?_ }
  · intro _ _
    rw [Block.writeHeader, absOffset_congr (hreaders.sameOn (by omega)),
      absOffset_congr (htype.sameOn (by omega)), absOffset_congr (hsize.sameOn (by omega))]
    exact absOffset_set hoffset
  · intro _ _
    rw [Block.writeHeader, messageSize_congr (hreaders.sameOn (by omega)),
      messageSize_congr (htype.sameOn (by omega))]
    exact messageSize_set h.messageSize_lt
  · intro _ _
    rw [Block.writeHeader, type_congr (hreaders.sameOn (by omega))]
    exact type_set _
  · intro _
    rw [Block.writeHeader, numReaders_set, UInt8.toNat_ofNat', Nat.mod_eq_of_lt hcount]
  · intro hsettled
    cases hsettled
  · intro hcommitted
    cases hcommitted

theorem storeHeader_iterate (hstage : s.stage b.offset = .admitted) :
    (storeHeader Q · b)^[4] s = { s with
      mem := b.writeHeader Q s.mem, stage := Function.update s.stage b.offset .claimed } := by
  have hiterate : (storeHeader Q · b)^[4] s =
      storeHeader Q (storeHeader Q (storeHeader Q (storeHeader Q s b) b) b) b := rfl
  rw [hiterate]
  simp [storeHeader, hstage, State.setStage, Block.writeHeader]

/-- The claim of a writer that need not wait, up to the skip message's own end. -/
theorem finishClaim_eq (hwait : mustWait Q s b = false) :
    finishClaim Q s b =
      let claimed := { s with
        mem := b.writeHeader Q s.mem, stage := Function.update s.stage b.offset .claimed }
      if b.isPadding Q then finishSkip Q claimed b else claimed := by
  have hstart : loadReadOffset Q s b = s.setStage b .admitted := by
    rw [loadReadOffset, hwait]
    rfl
  have hclaimed : (storeHeader Q · b)^[4] (loadReadOffset Q s b) = { s with
      mem := b.writeHeader Q s.mem, stage := Function.update s.stage b.offset .claimed } := by
    rw [hstart, storeHeader_iterate (Function.update_self _ _ _)]
    simp [State.setStage]
  simp only [finishClaim, hwait, hclaimed]
  rfl

/-- A claim that needs a skip message is committed when the skip message is. -/
theorem commits_finishSkip (h : b.Shape Q) (hoffset : b.offset < 2 ^ 64)
    (hcount : b.numReaders < 256) (hwait : mustWait Q s b = false)
    (hpad : b.isPadding Q = true) : Commits Q s b (finishClaim Q s b) := by
  have hlen := h.length_ge
  have hmem := h.writeHeader_mem hoffset hcount s.mem
  have hclear := fill_sameOutside (m := b.writeHeader Q s.mem)
    (a := b.hdr Q + sizeofMessageHeader * sizeofMessageHeader) (n := b.messageSize Q) 0
  have hflag := setCommitFlag_sameOutside ((b.writeHeader Q s.mem).fill
    (b.hdr Q + sizeofMessageHeader * sizeofMessageHeader) (b.messageSize Q) 0)
    (b.hdr Q) .readyForConsumer
  rw [finishClaim_eq hwait]
  simp only [hpad, if_true]
  constructor
  · refine hmem.settle .committed (commitFlag_set _) ?_ ?_
    · refine (hclear.sameOn (Or.inl ?_)).trans (hflag.sameOn (Or.inl (by omega)))
      simp only [sizeofMessageHeader]
      omega
    · intro _ hpad'
      rw [hpad] at hpad'
      cases hpad'
  · exact (h.writeHeader_frame s.mem).trans (finishSkip_mem_frame h hpad)
  · simp [finishSkip, State.setStage]

/-- A message is committed when its data is written. -/
theorem commits_writeToBuffer (h : b.Shape Q) (hoffset : b.offset < 2 ^ 64)
    (hcount : b.numReaders < 256) (hwait : mustWait Q s b = false)
    (hpad : b.isPadding Q = false) :
    Commits Q s b (writeToBuffer Q (finishClaim Q s b) b) := by
  have hfits := h.data_fits hpad
  have hmem := h.writeHeader_mem hoffset hcount s.mem
  have hwrite := write_sameOutside (m := b.writeHeader Q s.mem)
    (a := b.hdr Q + sizeofMessageHeader) b.data
  have hflag := setCommitFlag_sameOutside ((b.writeHeader Q s.mem).write
    (b.hdr Q + sizeofMessageHeader) b.data) (b.hdr Q) .readyForConsumer
  simp only [sizeofMessageHeader] at hwrite hflag
  rw [finishClaim_eq hwait]
  simp only [hpad, Bool.false_eq_true, if_false]
  constructor
  · refine hmem.settle .committed (commitFlag_set _) ?_ ?_
    · exact (hwrite.sameOn (Or.inl (by omega))).trans (hflag.sameOn (Or.inl (by omega)))
    · intro _ _
      exact (payload_congr (hflag.sameOn (Or.inr (by omega)))).trans (bytes_write_same b.data)
  · exact (h.writeHeader_frame s.mem).trans (writeToBuffer_mem_frame h hpad)
  · simp [writeToBuffer, State.setStage]

/-- A poll at a header that is not ready finds nothing. -/
theorem pollOutcome_of_notReady {m : Memory} {p : Nat} (h : commitFlag m (p % Q.bytes) = 0) :
    pollOutcome Q m p = .nullopt := by
  simp only [pollOutcome, h]
  rfl

/-- A poll at a committed block finds it. -/
theorem pollOutcome_of_blockMem {m : Memory} {n : Nat} (h : BlockMem Q m b .committed n)
    (hn : 0 < n) :
    pollOutcome Q m b.offset = if b.isPadding Q then .skipPadding else .wrapper := by
  have hflag : commitFlag m (b.offset % Q.bytes) = CommitFlag.readyForConsumer.toByte :=
    h.commitFlag rfl hn
  have habs : absOffset m (b.offset % Q.bytes) = b.offset := h.absOffset (by decide) hn
  have htype : type m (b.offset % Q.bytes) = (b.type Q).toNat := h.type (by decide) hn
  simp only [pollOutcome, hflag, habs, htype, if_true, Block.type]
  cases b.isPadding Q <;> simp [MessageType.toNat]

/-- A poll at an aborted block takes it. -/
theorem pollOutcome_of_aborted {m : Memory} {n : Nat} (h : BlockMem Q m b .aborted n)
    (hn : 0 < n) : pollOutcome Q m b.offset = .skipAborted := by
  have hflag : commitFlag m (b.offset % Q.bytes) = CommitFlag.aborted.toByte :=
    h.commitFlag rfl hn
  have hne : CommitFlag.aborted.toByte ≠ CommitFlag.readyForConsumer.toByte := by decide
  simp only [pollOutcome, hflag, if_neg hne, if_true]

/-- A poll that skips a skip message is about to release it. -/
theorem pollHeader_skipPadding (hout : pollOutcome Q s.mem rd.absReadOffset = .skipPadding) :
    ∃ asserts, pollHeader Q s r rd = { s with
      readers := s.readers.set r { rd with pc := .releaseCalled (rd.absReadOffset % Q.bytes) }
      assertsHold := asserts } := by
  simp only [pollHeader, hout]
  exact ⟨_, rfl⟩

/-- A poll that finds a message hands it out. -/
theorem pollHeader_wrapper (hout : pollOutcome Q s.mem rd.absReadOffset = .wrapper) :
    ∃ asserts, pollHeader Q s r rd = { s with
      readers := s.readers.set r { rd with
        pc := .holding (rd.absReadOffset % Q.bytes)
        received := rd.received ++ [payload s.mem (rd.absReadOffset % Q.bytes)
          (messageSize s.mem (rd.absReadOffset % Q.bytes))] }
      assertsHold := asserts } := by
  simp only [pollHeader, hout]
  exact ⟨_, rfl⟩

/-! ### A release by the last reader -/

/-- The bytes after the last reader's release. -/
def clearBlock (m : Memory) (hdr : Nat) : Memory :=
  let counted := setNumReaders m hdr (numReaders m hdr - 1)
  let cleared := counted.fill (hdr + sizeofMessageHeader) (messageSize counted hdr) 0
  setCommitFlag (setType (setMessageSize cleared hdr 0) hdr .normal) hdr .notReady

theorem clearBlock_sameOutside (m : Memory) (hdr : Nat) :
    SameOutside m (clearBlock m hdr) hdr (messageSize m hdr + 18) := by
  have hcount := setNumReaders_sameOutside m hdr (numReaders m hdr - 1)
  have hsize : messageSize (setNumReaders m hdr (numReaders m hdr - 1)) hdr =
      messageSize m hdr := messageSize_congr (hcount.sameOn (by omega))
  have hbody := fill_sameOutside (m := setNumReaders m hdr (numReaders m hdr - 1))
    (a := hdr + 18) (n := messageSize m hdr) 0
  simp only [clearBlock, hsize]
  refine (hcount.mono ?_ ?_).trans ((hbody.mono ?_ ?_).trans
    (((setMessageSize_sameOutside _ hdr 0).mono ?_ ?_).trans
      (((setType_sameOutside _ hdr .normal).mono ?_ ?_).trans
        ((setCommitFlag_sameOutside _ hdr .notReady).mono ?_ ?_))))
  all_goals omega

/-- `release_buffer` by the reader that finds one reader left. -/
theorem releasesLast (hrd : s.readers[r]? = some rd)
    (hpc : rd.pc = .releaseCalled hdr) (hstay : rd.leaveOffset = none)
    (hlast : (numReaders s.mem hdr).toNat = 1) (htotal : messageSize s.mem hdr + 18 = total) :
    ReleasesLast s r rd hdr total (finishRelease Q s r) := by
  have hset : ∀ x, (s.readers.set r x)[r]? = some x := by
    simp [lt_of_getElem? hrd]
  have hone : (numReaders s.mem hdr).toNat ≤ 1 := hlast.le
  have hiterate : finishRelease Q s r = releaseStep Q (releaseStep Q (releaseStep Q (releaseStep Q
      (releaseStep Q (releaseStep Q s r) r) r) r) r) r := rfl
  subst htotal
  have hmem : (finishRelease Q s r).mem = clearBlock s.mem hdr := by
    rw [hiterate]
    simp only [releaseStep, hrd, hpc, fetchSub, hone, decide_true, if_true, hset, clearStep,
      State.setReader, List.set_set, clearBlock]
  refine ⟨?_, ?_, ?_⟩
  · rw [hmem]
    exact commitFlag_set _
  · rw [hmem]
    exact clearBlock_sameOutside s.mem hdr
  · rw [hmem, hiterate]
    simp only [releaseStep, hrd, hpc, fetchSub, hone, decide_true, if_true, hset, clearStep,
      State.setReader, List.set_set, clearBlock, Reader.afterRelease, hstay]
    rfl

/-- The last reader of a committed block releases all of it. -/
theorem BlockMem.releasesLast (hmem : BlockMem Q s.mem b .committed 1) (h : b.Shape Q)
    (hrd : s.readers[r]? = some rd) (hpc : rd.pc = .releaseCalled (b.hdr Q))
    (hstay : rd.leaveOffset = none) :
    ReleasesLast s r rd (b.hdr Q) b.length (finishRelease Q s r) := by
  apply MockExchange.releasesLast hrd hpc hstay (hmem.numReaders (by decide))
  rw [hmem.messageSize (by decide) (by omega), h.messageSize_add]

end

end MockExchange
