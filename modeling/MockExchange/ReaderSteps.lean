import MockExchange.WriterSteps

/-!
# The readers' steps keep the invariant

A reader that polls, is handed a block or calls `release_buffer` changes nothing
but its own program counter. A leave takes the reader out of the count of every
block still to come.
-/

namespace MockExchange

open ByteMemory Tiling MessageHeader Memory ListUpdate

section

variable {Q : RingSize} {s : State} {b c : Block} {r : Nat} {rd : Reader}

/-! ### Steps that only move the program counter -/

theorem Inv.setReader (h : Inv Q s) (hrd : s.readers[r]? = some rd) (rd' : Reader)
    {asserts : Bool} (hasserts : asserts = true)
    (hpos : rd'.absReadOffset = rd.absReadOffset) (hleave : rd'.leaveOffset = rd.leaveOffset)
    (hnot : ¬ rd.isClearing) (hnot' : ¬ rd'.isClearing) (hr' : ReaderInv Q s rd') :
    Inv Q { s with readers := s.readers.set r rd', assertsHold := asserts } := by
  have hsame : ∀ off, rd'.pending off = rd.pending off := by
    intro off
    rw [Reader.pending, Reader.pending, hpos, hleave]
  have hpending : ∀ off, (s.readers.set r rd').countP (·.pending off) = s.pendingCount off :=
    fun off => countP_set_of_eq _ hrd (hsame off)
  have hactive : (s.readers.set r rd').countP Reader.active = s.readers.countP Reader.active :=
    countP_set_of_eq _ hrd (by rw [Reader.active, Reader.active, hleave])
  have htransfer : ∀ x, ReaderInv Q s x → ReaderInv Q
      { s with readers := s.readers.set r rd', assertsHold := asserts } x := by
    intro x hx
    refine hx.transfer _ rfl rfl (fun _ _ hst => hst) ?_
    intro step hdr total b hb
    exact ⟨hb.mem_log, hb.hdr_eq, hb.total_eq, hb.passed, hb.joined, hb.live,
      (hpending b.offset).trans hb.none_pending, hb.settled, hb.memory⟩
  refine
    { tiles := h.tiles, word := ?_, shape := h.shape, counted := h.counted, room := h.room,
      mark := h.mark, window := h.window, owed := ?_, reader := ?_, unsettled := ?_, block := ?_,
      cleared := ?_, one_clears := ?_, asserts := hasserts }
  · change Packs _ ((s.readers.set r rd').countP Reader.active) _
    rw [hactive]
    exact h.word
  · intro x hx b hb hp
    rcases List.mem_or_eq_of_mem_set hx with hx | rfl
    · exact h.owed x hx b hb hp
    · rw [hsame] at hp
      exact h.owed rd (List.mem_of_getElem? hrd) b hb hp
  · intro x hx
    apply htransfer
    rcases List.mem_or_eq_of_mem_set hx with hx | rfl
    · exact h.reader x hx
    · exact hr'
  · intro b hb hst
    exact (hpending b.offset).trans (h.unsettled b hb hst)
  · intro b hb hlive
    change BlockMem Q s.mem b _ ((s.readers.set r rd').countP (·.pending b.offset))
    rw [hpending]
    exact h.block b hb hlive
  · intro b hb hlive hzero
    obtain ⟨x, hx, hclears, hfin⟩ := h.cleared b hb hlive ((hpending b.offset).symm.trans hzero)
    refine ⟨x, mem_set_of_ne hrd hx ?_, hclears, hfin⟩
    rintro rfl
    exact hnot hclears
  · intro i j x y hi hj hx hy heq
    rcases getElem?_set_cases hi with ⟨-, rfl⟩ | ⟨-, hi⟩
    · exact absurd hx hnot'
    · rcases getElem?_set_cases hj with ⟨-, rfl⟩ | ⟨-, hj⟩
      · exact absurd hy hnot'
      · exact h.one_clears i j x y hi hj hx hy heq

/-- What a reader relies on, after it moved to a program counter that claims
nothing about the ring. -/
theorem ReaderInv.setPc (hr : ReaderInv Q s rd) {pc : ReaderPc} (received : List (List UInt8))
    (howns : ∀ hdr, pc = .holding hdr ∨ pc = .releaseCalled hdr → ∃ b, Owns Q s rd hdr b)
    (hclearing : ∀ step hdr total, pc ≠ .clearing step hdr total)
    (hstaying : pc = .idle ∨ pc = .flagLoaded ∨ pc = .offsetMatched → rd.leaveOffset = none)
    (hleaving : pc = .draining ∨ pc = .closed → rd.leaveOffset.isSome = true)
    (hclosed : pc = .closed → rd.leaveOffset = some rd.absReadOffset) :
    ReaderInv Q s { rd with pc := pc, received := received } where
  join_le := hr.join_le
  boundary := hr.boundary
  limit := hr.limit
  settled := hr.settled
  decremented := hr.decremented
  close := hr.close
  owns := by
    intro hdr hpc
    obtain ⟨b, hb⟩ := howns hdr hpc
    exact ⟨b, hb.mem_log, hb.hdr_eq, hb.position, hb.settled, hb.pending⟩
  clearing := fun step hdr total hpc => absurd hpc (hclearing step hdr total)
  staying := hstaying
  leaving := hleaving
  closed := hclosed

theorem Reader.not_isClearing_of_pc {pc : ReaderPc} (hpc : rd.pc = pc)
    (h : ∀ step hdr total, pc ≠ .clearing step hdr total) : ¬ rd.isClearing := by
  rintro ⟨step, hdr, total, hclearing⟩
  exact h step hdr total (hpc.symm.trans hclearing)

/-- A call of `release_buffer` on a settled block in front of the reader. -/
theorem Inv.callRelease (h : Inv Q s) (hrd : s.readers[r]? = some rd)
    (hnot : ¬ rd.isClearing) {hdr : Nat} (howns : Owns Q s rd hdr b) :
    Inv Q (callRelease s r rd hdr) := by
  have hr := h.reader rd (List.mem_of_getElem? hrd)
  refine h.setReader hrd { rd with pc := .releaseCalled hdr } h.asserts rfl rfl hnot ?_ ?_
  · exact Reader.not_isClearing_of_pc rfl (by simp)
  · apply hr.setPc rd.received
    · rintro hdr' (hpc | hpc)
      · cases hpc
      · cases hpc
        exact ⟨b, howns⟩
    all_goals simp

theorem Inv.handOut (h : Inv Q s) (hrd : s.readers[r]? = some rd)
    (hnot : ¬ rd.isClearing) {hdr : Nat} (howns : Owns Q s rd hdr b) :
    Inv Q (handOut s r rd hdr) := by
  have hr := h.reader rd (List.mem_of_getElem? hrd)
  refine h.setReader hrd { rd with
    pc := .holding hdr
    received := rd.received ++ [payload s.mem hdr (messageSize s.mem hdr)] }
    h.asserts rfl rfl hnot ?_ ?_
  · exact Reader.not_isClearing_of_pc rfl (by simp)
  · apply hr.setPc
    · rintro hdr' (hpc | hpc)
      · cases hpc
        exact ⟨b, howns⟩
      · cases hpc
    all_goals simp

/-- Between two loads of a poll the reader only remembers how far it got. -/
theorem Inv.pollPc (h : Inv Q s) (hrd : s.readers[r]? = some rd) {pc : ReaderPc}
    (hold : rd.pc = .idle ∨ rd.pc = .flagLoaded ∨ rd.pc = .offsetMatched)
    (hnew : pc = .idle ∨ pc = .flagLoaded ∨ pc = .offsetMatched) :
    Inv Q (s.setReader r { rd with pc := pc }) := by
  have hr := h.reader rd (List.mem_of_getElem? hrd)
  have hstay := hr.staying hold
  refine h.setReader hrd { rd with pc := pc } h.asserts rfl rfl ?_ ?_ ?_
  · rintro ⟨step, hdr, total, hpc⟩
    rw [hpc] at hold
    simp at hold
  · rintro ⟨step, hdr, total, hpc⟩
    simp only at hpc
    rw [hpc] at hnew
    simp at hnew
  · apply hr.setPc rd.received
    · rintro hdr (rfl | rfl) <;> simp at hnew
    · rintro step hdr total rfl
      simp at hnew
    · intro _
      exact hstay
    · rintro (rfl | rfl) <;> simp at hnew
    · rintro rfl
      simp at hnew

/-- The drain loop of a closing reader ends at the offset its leave observed. -/
theorem Inv.close (h : Inv Q s) (hrd : s.readers[r]? = some rd) (hpc : rd.pc = .draining)
    (hend : rd.leaveOffset = some rd.absReadOffset) :
    Inv Q (s.setReader r { rd with pc := .closed }) := by
  have hr := h.reader rd (List.mem_of_getElem? hrd)
  refine h.setReader hrd { rd with pc := .closed } h.asserts rfl rfl ?_ ?_ ?_
  · exact Reader.not_isClearing_of_pc hpc (by simp)
  · exact Reader.not_isClearing_of_pc rfl (by simp)
  · apply hr.setPc rd.received
    · simp
    · simp
    · simp
    · intro _
      rw [hend]
      rfl
    · intro _
      exact hend

/-! ### Leaving -/

/-- The reader after a leave that observed the write offset. -/
def Reader.leftAt (rd : Reader) (offset : Nat) : Reader :=
  { rd with
    leaveOffset := some offset, closeStart := some (rd.absReadOffset, rd.decremented),
    pc := .draining }

theorem leave_readers : (leave s r rd).readers = s.readers.set r (rd.leftAt s.writeOffset) := rfl

/-- A leaving reader owes what it owed before: every reserved block lies below
the offset it leaves at. -/
theorem Inv.leftAt_pending (h : Inv Q s) (hstay : rd.leaveOffset = none) (hb : b ∈ s.log) :
    (rd.leftAt s.writeOffset).pending b.offset = rd.pending b.offset := by
  have hlt := h.offset_lt hb
  change (decide (rd.absReadOffset ≤ b.offset) && decide (b.offset < s.writeOffset)) =
    (decide (rd.absReadOffset ≤ b.offset) && rd.leaveOffset.all _)
  rw [hstay, decide_eq_true hlt]
  rfl

theorem Inv.pendingCount_leave (h : Inv Q s) (hrd : s.readers[r]? = some rd)
    (hpc : rd.pc = .idle) (hb : b ∈ s.log) :
    (MockExchange.leave s r rd).pendingCount b.offset = s.pendingCount b.offset := by
  have hstay := (h.reader rd (List.mem_of_getElem? hrd)).staying (Or.inl hpc)
  rw [State.pendingCount, leave_readers]
  exact countP_set_of_eq _ hrd (h.leftAt_pending hstay hb)

/-- A leave: the reader still owes what was reserved up to the offset its CAS
observed, and nothing behind. -/
theorem Inv.leave (h : Inv Q s) (hrd : s.readers[r]? = some rd) (hpc : rd.pc = .idle) :
    Inv Q (leave s r rd) := by
  have hr := h.reader rd (List.mem_of_getElem? hrd)
  have hstay := hr.staying (Or.inl hpc)
  have hactive : rd.active = true := by rw [Reader.active, hstay]; rfl
  have hpos : 0 < s.readers.countP Reader.active :=
    List.countP_pos_iff.mpr ⟨rd, List.mem_of_getElem? hrd, hactive⟩
  have hword := h.word.returnSubReader hpos
  have hpending := fun b hb => h.pendingCount_leave (b := b) hrd hpc hb
  have hsame := fun b hb => h.leftAt_pending (b := b) hstay hb
  have hstate : MockExchange.leave s r rd =
      { s with
        readersAndWriteOffset := (UnpackedReadersAndWriterOffset.unwrap
          s.readersAndWriteOffset).returnSubReader.2
        readers := s.readers.set r (rd.leftAt s.writeOffset) } := rfl
  rw [hstate] at hpending ⊢
  generalize (UnpackedReadersAndWriterOffset.unwrap s.readersAndWriteOffset).returnSubReader.2 = v
    at hword hpending
  have hwrite : (UnpackedReadersAndWriterOffset.unwrap v).writeOffset.toNat = s.writeOffset :=
    hword.writeOffset
  generalize hrd' : rd.leftAt s.writeOffset = rd' at hpending hsame
  have hle := hr.boundary.le h.tiles
  have hcount : (s.readers.set r rd').countP Reader.active =
      s.readers.countP Reader.active - 1 := by
    have hset := countP_set (y := rd') Reader.active hrd
    have hleft : rd'.active = false := by subst hrd'; rfl
    simp only [hactive, hleft, if_true, Bool.false_eq_true, if_false] at hset
    omega
  have hnot : ¬ rd.isClearing := Reader.not_isClearing_of_pc hpc (by simp)
  have hnot' : ¬ rd'.isClearing := by
    subst hrd'
    have hdraining : (rd.leftAt s.writeOffset).pc = .draining := rfl
    exact Reader.not_isClearing_of_pc hdraining (by simp)
  have hr' : ReaderInv Q s rd' := by
    subst hrd'
    refine
      { join_le := hr.join_le, boundary := hr.boundary, limit := ?_, settled := hr.settled,
        decremented := hr.decremented, close := ?_, owns := ?_, clearing := ?_, staying := ?_,
        leaving := fun _ => rfl, closed := ?_ }
    · intro e he
      cases he
      exact ⟨hle, Or.inl rfl⟩
    · intro a before hclose
      cases hclose
      exact ⟨hr.join_le, Nat.le_refl _, hr.decremented⟩
    all_goals simp [Reader.leftAt]
  refine
    { tiles := ?_, word := ?_, shape := h.shape, counted := h.counted, room := ?_, mark := ?_,
      window := h.window, owed := ?_, reader := ?_, unsettled := ?_, block := ?_, cleared := ?_,
      one_clears := ?_, asserts := h.asserts }
  · change Tiles _ _ _ _ (UnpackedReadersAndWriterOffset.unwrap v).writeOffset.toNat
    rw [hwrite]
    exact h.tiles
  · change Packs v ((s.readers.set r rd').countP Reader.active)
      (UnpackedReadersAndWriterOffset.unwrap v).writeOffset.toNat
    rw [hcount, hwrite]
    exact hword
  · change (UnpackedReadersAndWriterOffset.unwrap v).writeOffset.toNat % _ + 18 ≤ _
    rw [hwrite]
    exact h.room
  · change Boundary _ _ (UnpackedReadersAndWriterOffset.unwrap v).writeOffset.toNat _
    rw [hwrite]
    exact h.mark
  · intro x hx b hb hp
    rcases List.mem_or_eq_of_mem_set hx with hx | rfl
    · exact h.owed x hx b hb hp
    · rw [hsame b hb] at hp
      exact h.owed rd (List.mem_of_getElem? hrd) b hb hp
  · intro x hx
    have hxr : ReaderInv Q s x := by
      rcases List.mem_or_eq_of_mem_set hx with hx | rfl
      · exact h.reader x hx
      · exact hr'
    refine hxr.transfer _ rfl hwrite (fun _ _ hst => hst) ?_
    intro step hdr total b hb
    exact ⟨hb.mem_log, hb.hdr_eq, hb.total_eq, hb.passed, hb.joined, hb.live,
      (hpending b hb.mem_log).trans hb.none_pending, hb.settled, hb.memory⟩
  · intro b hb hst
    exact (hpending b hb).trans (h.unsettled b hb hst)
  · intro b hb hlive
    rw [hpending b hb]
    exact h.block b hb hlive
  · intro b hb hlive hzero
    obtain ⟨x, hx, hclears, hfin⟩ := h.cleared b hb hlive ((hpending b hb).symm.trans hzero)
    refine ⟨x, mem_set_of_ne hrd hx ?_, hclears, hfin⟩
    rintro rfl
    exact hnot hclears
  · intro i j x y hi hj hx hy heq
    rcases getElem?_set_cases hi with ⟨-, rfl⟩ | ⟨-, hi⟩
    · exact absurd hx hnot'
    · rcases getElem?_set_cases hj with ⟨-, rfl⟩ | ⟨-, hj⟩
      · exact absurd hy hnot'
      · exact h.one_clears i j x y hi hj hx hy heq

end

end MockExchange
