import MockExchange.ReaderSteps

/-!
# The steps of `release_buffer` keep the invariant

`fetch_sub` takes the reader out of one block's count. The reader that was the
last one clears the block, which nobody else looks at any more, and its last
step moves `read_offset` over it.
-/

namespace MockExchange

open ByteMemory Tiling MessageHeader Memory ListUpdate

section

variable {Q : RingSize} {s : State} {b c : Block} {r : Nat} {rd : Reader}

/-! ### `fetch_sub` -/

theorem Inv.window_of_settled (h : Inv Q s) (hb : b ∈ s.log)
    (hst : (s.stage b.offset).settled = true) : b.finish ≤ s.readOffset + Q.bytes :=
  h.window b hb (Stage.ne_waiting_of_settled hst)

theorem Inv.add64_length (h : Inv Q s) (hb : b ∈ s.log) :
    add64 b.offset b.length = b.finish := by
  have hlt := h.finish_lt hb
  rw [add64, Nat.mod_eq_of_lt]
  · rfl
  · simp only [Block.finish] at hlt
    omega

/-- What a reader reads in the header of a settled block it has not passed. -/
structure Owns.Header (Q : RingSize) (s : State) (b : Block) : Prop where
  live : s.readOffset ≤ b.offset
  pending_pos : 0 < s.pendingCount b.offset
  absOffset : absOffset s.mem (b.hdr Q) = b.offset
  total : messageSize s.mem (b.hdr Q) + sizeofMessageHeader = b.length
  type : type s.mem (b.hdr Q) = (b.type Q).toNat
  count : (numReaders s.mem (b.hdr Q)).toNat = s.pendingCount b.offset
  flag : commitFlag s.mem (b.hdr Q) = (s.stage b.offset).flag.toByte

theorem Inv.header (h : Inv Q s) (hrd : rd ∈ s.readers) (hb : b ∈ s.log)
    (hst : (s.stage b.offset).settled = true) (hp : rd.pending b.offset = true) :
    Owns.Header Q s b := by
  have hlive := h.owed rd hrd b hb hp
  have hpos := State.pendingCount_pos hrd hp
  have hrank := Stage.rank_of_settled hst
  have hmem := h.block b hb hlive
  refine
    { live := hlive, pending_pos := hpos, absOffset := hmem.absOffset (by omega) hpos,
      total := ?_, type := hmem.type (by omega) hpos, count := hmem.numReaders (by omega),
      flag := hmem.commitFlag hst hpos }
  rw [hmem.messageSize (by omega) hpos]
  exact (h.shape b hb).messageSize_add

theorem toNat_pred {x : UInt8} (h : 0 < x.toNat) : (x - 1).toNat = x.toNat - 1 := by
  have hle : (1 : UInt8) ≤ x := by
    rw [UInt8.le_iff_toNat_le]
    exact h
  rw [UInt8.toNat_sub_of_le _ _ hle]
  rfl

theorem BlockMem.pred {m : Memory} {stage : Stage} {n : Nat} (h : BlockMem Q m b stage n)
    (hrank : 5 ≤ stage.rank) (hn : 0 < n) :
    BlockMem Q (setNumReaders m (b.hdr Q) (MessageHeader.numReaders m (b.hdr Q) - 1)) b stage
      (n - 1) := by
  have hcount := h.numReaders hrank
  have hout := setNumReaders_sameOutside m (b.hdr Q)
    (MessageHeader.numReaders m (b.hdr Q) - 1)
  constructor
  · intro hr _
    rw [absOffset_congr (hout.sameOn (by omega))]
    exact h.absOffset hr hn
  · intro hr _
    rw [messageSize_congr (hout.sameOn (by omega))]
    exact h.messageSize hr hn
  · intro hr _
    rw [type_congr (hout.sameOn (by omega))]
    exact h.type hr hn
  · intro _
    rw [numReaders_set, toNat_pred (by omega), hcount]
  · intro hst _
    rw [commitFlag_congr (hout.sameOn (by omega))]
    exact h.commitFlag hst hn
  · intro hst hpad _
    rw [payload_congr (hout.sameOn (by omega))]
    exact h.data hst hpad hn

/-- The reader after the `fetch_sub` of `b`. -/
def Reader.passed (rd : Reader) (Q : RingSize) (b : Block) (last : Bool) : Reader :=
  { rd with
    absReadOffset := b.finish
    decremented := rd.decremented ++ [b.offset]
    pc := if last then .clearing .body (b.hdr Q) b.length else rd.afterRelease }

/-- `fetch_sub` on a settled block in front of the reader: its byte counts the
readers that have not passed it, this one included, so it does not wrap and the
reader that sees `prev_count <= 1` is the last one. -/
theorem Inv.fetchSub_eq (h : Inv Q s) (hrd : s.readers[r]? = some rd) {hdr : Nat}
    (howns : Owns Q s rd hdr b) :
    fetchSub Q s r rd hdr =
      { s with
        mem := setNumReaders s.mem (b.hdr Q) (MessageHeader.numReaders s.mem (b.hdr Q) - 1)
        readers := s.readers.set r (rd.passed Q b (decide (s.pendingCount b.offset ≤ 1)))
        clears := if s.pendingCount b.offset ≤ 1 then s.clears ++ [b.offset] else s.clears } := by
  have hheader := h.header (List.mem_of_getElem? hrd) howns.mem_log howns.settled howns.pending
  have hhdr := howns.hdr_eq
  subst hhdr
  have hpos := howns.position
  have hmod : rd.absReadOffset % Q.bytes = b.hdr Q := by rw [hpos]; rfl
  have hlen : b.length ≤ Q.bytes := by
    have hfits := (h.shape b howns.mem_log).fits
    omega
  have hadd := h.add64_length howns.mem_log
  simp only [fetchSub, hheader.total, hheader.absOffset, hheader.count, hpos, hadd,
    Reader.passed, h.asserts, decide_eq_true_eq]
  congr 1
  have hdist : b.offset % Q.bytes = b.hdr Q := rfl
  simp [hdist, hlen]

theorem Reader.passed_pending (h : Inv Q s) (hb : b ∈ s.log) (hpos : rd.absReadOffset = b.offset)
    {last : Bool} (hc : c ∈ s.log) (hne : c ≠ b) :
    (rd.passed Q b last).pending c.offset = rd.pending c.offset := by
  have hiff : b.finish ≤ c.offset ↔ rd.absReadOffset ≤ c.offset := by
    have hlen := (h.shape b hb).length_ge
    rw [hpos]
    constructor
    · intro hle
      simp only [Block.finish] at hle
      omega
    · intro hle
      apply h.finish_le_of_lt hb hc
      rcases Nat.lt_or_ge b.offset c.offset with hlt | hge
      · exact hlt
      · exact absurd (h.eq_of_offset_eq hc hb (by omega)) hne
  change (decide (b.finish ≤ c.offset) && _) = (decide (rd.absReadOffset ≤ c.offset) && _)
  rw [decide_eq_decide.mpr hiff]
  rfl

theorem Reader.passed_not_pending (h : Inv Q s) (rd : Reader) (hb : b ∈ s.log) (last : Bool) :
    (rd.passed Q b last).pending b.offset = false := by
  have hlen := (h.shape b hb).length_ge
  have hlt : ¬ b.finish ≤ b.offset := by
    simp only [Block.finish]
    omega
  simp [Reader.pending, Reader.passed, hlt]

/-- A `fetch_sub` changes the count of its own block only, by one. -/
theorem Inv.pendingCount_passed_of_ne (h : Inv Q s) (hrd : s.readers[r]? = some rd)
    {hdr : Nat} (howns : Owns Q s rd hdr b) (last : Bool) (hc : c ∈ s.log) (hne : c ≠ b) :
    (s.readers.set r (rd.passed Q b last)).countP (·.pending c.offset) =
      s.pendingCount c.offset :=
  countP_set_of_eq _ hrd (Reader.passed_pending h howns.mem_log howns.position hc hne)

theorem Inv.pendingCount_passed (h : Inv Q s) (hrd : s.readers[r]? = some rd) {hdr : Nat}
    (howns : Owns Q s rd hdr b) (last : Bool) :
    (s.readers.set r (rd.passed Q b last)).countP (·.pending b.offset) =
      s.pendingCount b.offset - 1 := by
  have hset := countP_set (y := rd.passed Q b last) (·.pending b.offset) hrd
  have hgone := Reader.passed_not_pending h rd howns.mem_log last
  simp only [howns.pending, hgone, if_true, Bool.false_eq_true, if_false] at hset
  simp only [State.pendingCount]
  omega

theorem Inv.fetchSub (h : Inv Q s) (hrd : s.readers[r]? = some rd) {hdr : Nat}
    (hpc : rd.pc = .releaseCalled hdr) (howns : Owns Q s rd hdr b) :
    Inv Q (fetchSub Q s r rd hdr) := by
  have hr := h.reader rd (List.mem_of_getElem? hrd)
  have hheader := h.header (List.mem_of_getElem? hrd) howns.mem_log howns.settled howns.pending
  have hwindow := h.window_of_settled howns.mem_log howns.settled
  have hshape := h.shape b howns.mem_log
  have hlen := hshape.length_ge
  have hb := howns.mem_log
  rw [h.fetchSub_eq hrd howns]
  generalize hlast : decide (s.pendingCount b.offset ≤ 1) = last
  generalize hrd' : rd.passed Q b last = rd'
  have hnot : ¬ rd.isClearing := Reader.not_isClearing_of_pc hpc (by simp)
  have hpending := fun c hc hne => h.pendingCount_passed_of_ne (c := c) hrd howns last hc hne
  have hpending_b := h.pendingCount_passed hrd howns last
  rw [hrd'] at hpending hpending_b
  have hactive : (s.readers.set r rd').countP Reader.active = s.readers.countP Reader.active :=
    countP_set_of_eq _ hrd (by subst hrd'; rfl)
  have hsettled_ne : ∀ c, (s.stage c.offset).settled = false → c ≠ b := by
    rintro c hst rfl
    rw [howns.settled] at hst
    cases hst
  have hframe : b.Frame Q s.mem
      (setNumReaders s.mem (b.hdr Q) (MessageHeader.numReaders s.mem (b.hdr Q) - 1)) :=
    .of_sameOutside (setNumReaders_sameOutside s.mem (b.hdr Q) _) (by omega) (by omega)
  have hbytes : ∀ c ∈ s.log, c ≠ b → s.readOffset ≤ c.offset → s.stage c.offset ≠ .waiting →
      SameOn s.mem (setNumReaders s.mem (b.hdr Q) (MessageHeader.numReaders s.mem (b.hdr Q) - 1))
        (c.hdr Q) c.length := by
    intro c hc hne hcl hst
    exact hframe.sameOn (h.shape c hc)
      (h.ring_disjoint hb hc hne.symm hheader.live hcl hwindow (h.window c hc hst))
  generalize hmem' : setNumReaders s.mem (b.hdr Q)
    (MessageHeader.numReaders s.mem (b.hdr Q) - 1) = mem' at hframe hbytes
  have hclears : ∀ x step hdr' total c, Clears Q s x step hdr' total c →
      Clears Q { s with
        mem := mem', readers := s.readers.set r rd',
        clears := if s.pendingCount b.offset ≤ 1 then s.clears ++ [b.offset] else s.clears }
        x step hdr' total c := by
    intro x step hdr' total c hc
    have hne : c ≠ b := by
      rintro rfl
      have hnone := hc.none_pending
      have := hheader.pending_pos
      omega
    have hsame := hbytes c hc.mem_log hne hc.live (Stage.ne_waiting_of_settled hc.settled)
    have hclen := (h.shape c hc.mem_log).length_ge
    refine ⟨hc.mem_log, hc.hdr_eq, hc.total_eq, hc.passed, hc.joined, hc.live,
      (hpending c hc.mem_log hne).trans hc.none_pending, hc.settled, ?_⟩
    have hhdr := hc.hdr_eq
    subst hhdr
    exact hc.memory.congr (hsame.mono (Nat.le_refl _) (by omega))
  -- the reader that passed `b`
  have hjoined : rd.joinOffset ≤ b.offset := by
    have hjoin := hr.join_le
    rw [howns.position] at hjoin
    exact hjoin
  have hlimit : ∀ e, rd.leaveOffset = some e → b.finish ≤ e := by
    intro e he
    have hlt := (Reader.pending_iff.mp howns.pending).2 e he
    exact h.tiles.end_le_boundary hb (hr.limit e he).2 hlt
  have hslice : s.offsetsIn rd.joinOffset b.finish =
      s.offsetsIn rd.joinOffset rd.absReadOffset ++ [b.offset] := by
    have hjoin := hr.join_le
    rw [howns.position] at hjoin ⊢
    simp only [State.offsetsIn, Block.finish]
    rw [h.tiles.slice_end hb hjoin, List.map_append]
    rfl
  have hr' : ReaderInv Q { s with
      mem := mem', readers := s.readers.set r rd',
      clears := if s.pendingCount b.offset ≤ 1 then s.clears ++ [b.offset] else s.clears } rd' := by
    subst hrd'
    refine
      { join_le := ?_, boundary := h.tiles.boundary_end hb, limit := ?_, settled := ?_,
        decremented := ?_, close := ?_, owns := ?_, clearing := ?_, staying := ?_, leaving := ?_,
        closed := ?_ }
    · have hjoin := hr.join_le
      have hpos := howns.position
      change rd.joinOffset ≤ b.finish
      simp only [Block.finish]
      omega
    · intro e he
      exact ⟨hlimit e he, (hr.limit e he).2⟩
    · intro c hc hlo hhi
      by_cases hcb : c.offset < b.offset
      · exact hr.settled c hc hlo (by rw [howns.position]; exact hcb)
      · have hhi' : c.offset < b.finish := hhi
        rcases Nat.lt_or_ge b.offset c.offset with hlt | hge
        · have := h.finish_le_of_lt hb hc hlt
          omega
        · rw [h.eq_of_offset_eq hc hb (by omega)]
          exact howns.settled
    · change rd.decremented ++ [b.offset] = s.offsetsIn rd.joinOffset b.finish
      rw [hslice, hr.decremented]
    · intro a before hclose
      obtain ⟨hja, hap, hbefore⟩ := hr.close a before hclose
      refine ⟨hja, ?_, hbefore⟩
      have hpos := howns.position
      change a ≤ b.finish
      simp only [Block.finish]
      omega
    · intro hdr' hpc'
      simp only [Reader.passed, Reader.afterRelease] at hpc'
      split at hpc' <;> try split at hpc'
      all_goals simp at hpc'
    · intro step hdr' total hpc'
      simp only [Reader.passed, Reader.afterRelease] at hpc'
      cases last with
      | false =>
        simp only [Bool.false_eq_true, if_false] at hpc'
        split at hpc' <;> cases hpc'
      | true =>
        simp only [if_true, ReaderPc.clearing.injEq] at hpc'
        obtain ⟨rfl, rfl, rfl⟩ := hpc'
        have hone : s.pendingCount b.offset ≤ 1 := of_decide_eq_true hlast
        refine ⟨b, hb, rfl, rfl, rfl, hjoined, hheader.live, ?_, howns.settled, ?_, ?_⟩
        · exact hpending_b.trans (by omega)
        · intro _
          subst hmem'
          change messageSize (setNumReaders s.mem _ _) _ + 18 = _
          rw [messageSize_congr ((setNumReaders_sameOutside s.mem (b.hdr Q) _).sameOn (by omega))]
          exact hheader.total
        · intro hstep
          cases hstep
    · intro hpc'
      simp only [Reader.passed, Reader.afterRelease] at hpc'
      change rd.leaveOffset = none
      cases hleave : rd.leaveOffset with
      | none => rfl
      | some e =>
        simp only [hleave, Option.isSome_some, if_true] at hpc'
        cases last <;> simp at hpc'
    · intro hpc'
      simp only [Reader.passed, Reader.afterRelease] at hpc'
      change rd.leaveOffset.isSome = true
      cases hleave : rd.leaveOffset with
      | none =>
        simp only [hleave, Option.isSome_none, Bool.false_eq_true, if_false] at hpc'
        cases last <;> simp at hpc'
      | some e => rfl
    · intro hpc'
      simp only [Reader.passed, Reader.afterRelease] at hpc'
      split at hpc' <;> try split at hpc'
      all_goals simp at hpc'
  have hclearing : ∀ x, x = rd' → x.isClearing →
      s.pendingCount b.offset ≤ 1 ∧ x.absReadOffset = b.finish := by
    rintro x rfl ⟨step, hdr', total, hpc'⟩
    subst hrd'
    simp only [Reader.passed, Reader.afterRelease] at hpc' ⊢
    cases last with
    | false =>
      simp only [Bool.false_eq_true, if_false] at hpc'
      split at hpc' <;> cases hpc'
    | true => exact ⟨of_decide_eq_true hlast, trivial⟩
  -- nobody was clearing `b` before, because this reader still owed it
  have hnobody : ∀ x ∈ s.readers, x.isClearing → x.absReadOffset ≠ b.finish := by
    rintro x hx ⟨step, hdr', total, hpc'⟩ heq
    obtain ⟨c, hc⟩ := (h.reader x hx).clearing step hdr' total hpc'
    have hcb := h.eq_of_finish_eq hc.mem_log hb (hc.passed.symm.trans heq)
    have hnone := hc.none_pending
    rw [hcb] at hnone
    have := hheader.pending_pos
    omega
  refine
    { tiles := h.tiles, word := ?_, shape := h.shape, counted := h.counted, room := h.room,
      mark := h.mark, window := h.window, owed := ?_, reader := ?_, unsettled := ?_, block := ?_,
      cleared := ?_, one_clears := ?_, asserts := h.asserts }
  · change Packs _ ((s.readers.set r rd').countP Reader.active) _
    rw [hactive]
    exact h.word
  · intro x hx c hc hp
    rcases List.mem_or_eq_of_mem_set hx with hx | rfl
    · exact h.owed x hx c hc hp
    · by_cases hne : c = b
      · rw [hne]
        exact hheader.live
      · subst hrd'
        rw [Reader.passed_pending h hb howns.position hc hne] at hp
        exact h.owed rd (List.mem_of_getElem? hrd) c hc hp
  · intro x hx
    rcases List.mem_or_eq_of_mem_set hx with hx | rfl
    · exact (h.reader x hx).transfer _ rfl rfl (fun _ _ hst => hst) (hclears x)
    · exact hr'
  · intro c hc hst
    exact (hpending c hc (hsettled_ne c hst)).trans (h.unsettled c hc hst)
  · intro c hc hlive
    change BlockMem Q mem' c (s.stage c.offset) ((s.readers.set r rd').countP (·.pending c.offset))
    by_cases hne : c = b
    · have hrank := Stage.rank_of_settled howns.settled
      rw [hne, hpending_b, ← hmem']
      exact (h.block b hb hheader.live).pred (by omega) hheader.pending_pos
    · rw [hpending c hc hne]
      have hold := h.block c hc hlive
      by_cases hst : s.stage c.offset = .waiting
      · rw [hst]
        exact BlockMem.of_rank_le_one (by decide)
      · exact hold.congr (h.shape c hc) (hbytes c hc hne hlive hst)
  · intro c hc hlive hzero
    have hzero' : (s.readers.set r rd').countP (·.pending c.offset) = 0 := hzero
    by_cases hne : c = b
    · refine ⟨rd', List.mem_set (lt_of_getElem? hrd) _, ?_, ?_⟩
      · rw [hne, hpending_b] at hzero'
        have hone : s.pendingCount b.offset ≤ 1 := by omega
        have htrue : last = true := hlast ▸ decide_eq_true hone
        subst hrd'
        exact ⟨.body, b.hdr Q, b.length, by simp [Reader.passed, htrue]⟩
      · rw [hne, ← hrd']
        rfl
    · rw [hpending c hc hne] at hzero'
      obtain ⟨x, hx, hxc, hfin⟩ := h.cleared c hc hlive hzero'
      refine ⟨x, mem_set_of_ne hrd hx ?_, hxc, hfin⟩
      rintro rfl
      exact hnot hxc
  · intro i j x y hi hj hx hy heq
    rcases getElem?_set_cases hi with ⟨hir, hxr⟩ | ⟨-, hi'⟩
    · rcases getElem?_set_cases hj with ⟨hjr, -⟩ | ⟨-, hj'⟩
      · rw [hir, hjr]
      · have hfin := (hclearing x hxr hx).2
        exact absurd (heq.symm.trans hfin) (hnobody y (List.mem_of_getElem? hj') hy)
    · rcases getElem?_set_cases hj with ⟨-, hyr⟩ | ⟨-, hj'⟩
      · have hfin := (hclearing y hyr hy).2
        exact absurd (heq.trans hfin) (hnobody x (List.mem_of_getElem? hi') hx)
      · exact h.one_clears i j x y hi' hj' hx hy heq

/-! ### Clearing a block -/

/-- Of a block nobody owes only the count matters. -/
theorem BlockMem.of_none_pending {m m' : Memory} {stage : Stage} {n : Nat}
    (h : BlockMem Q m b stage n) (hnone : n = 0) (hcount : SameOn m m' (b.hdr Q + 16) 1) :
    BlockMem Q m' b stage n := by
  subst hnone
  have hzero : 5 ≤ stage.rank → (MessageHeader.numReaders m' (b.hdr Q)).toNat = 0 := by
    intro hrank
    rw [numReaders_congr hcount]
    exact h.numReaders hrank
  refine
    { absOffset := ?_, messageSize := ?_, type := ?_, numReaders := hzero, commitFlag := ?_,
      data := ?_ }
  all_goals simp

/-- A reader that goes on clearing `b`, inside `b`. -/
theorem Inv.clearFrame (h : Inv Q s) (hrd : s.readers[r]? = some rd) {step : ClearStep}
    {hdr total : Nat} (hpc : rd.pc = .clearing step hdr total)
    (hclear : Clears Q s rd step hdr total b) {mem' : Memory} {step' : ClearStep}
    (hframe : b.Frame Q s.mem mem') (hcount : SameOn s.mem mem' (b.hdr Q + 16) 1)
    (hmem : ClearMem mem' step' hdr total) :
    Inv Q { s with
      mem := mem', readers := s.readers.set r { rd with pc := .clearing step' hdr total } } := by
  generalize hrd' : ({ rd with pc := .clearing step' hdr total } : Reader) = rd'
  have hr := h.reader rd (List.mem_of_getElem? hrd)
  have hb := hclear.mem_log
  have hshape := h.shape b hb
  have hsame : ∀ off, rd'.pending off = rd.pending off := by
    subst hrd'
    intro off
    rfl
  have hpassed : rd'.absReadOffset = b.finish := by
    subst hrd'
    exact hclear.passed
  have hpending : ∀ off, (s.readers.set r rd').countP (·.pending off) = s.pendingCount off :=
    fun off => countP_set_of_eq _ hrd (hsame off)
  have hactive : (s.readers.set r rd').countP Reader.active = s.readers.countP Reader.active :=
    countP_set_of_eq _ hrd (by subst hrd'; rfl)
  have hwindow := h.window_of_settled hb hclear.settled
  have hbytes : ∀ c ∈ s.log, c ≠ b → s.readOffset ≤ c.offset → s.stage c.offset ≠ .waiting →
      SameOn s.mem mem' (c.hdr Q) c.length := by
    intro c hc hne hcl hst
    exact hframe.sameOn (h.shape c hc)
      (h.ring_disjoint hb hc hne.symm hclear.live hcl hwindow (h.window c hc hst))
  have hisClearing : rd.isClearing := ⟨step, hdr, total, hpc⟩
  -- the reader that clears `b` is this one
  have hunique : ∀ i x, s.readers[i]? = some x → x.isClearing → x.absReadOffset = b.finish →
      i = r := by
    intro i x hi hx hfin
    exact h.one_clears i r x rd hi hrd hx hisClearing (hfin.trans hclear.passed.symm)
  refine
    { tiles := h.tiles, word := ?_, shape := h.shape, counted := h.counted, room := h.room,
      mark := h.mark, window := h.window, owed := ?_, reader := ?_, unsettled := ?_, block := ?_,
      cleared := ?_, one_clears := ?_, asserts := h.asserts }
  · change Packs _ ((s.readers.set r rd').countP Reader.active) _
    rw [hactive]
    exact h.word
  · intro x hx c hc hp
    rcases List.mem_or_eq_of_mem_set hx with hx | rfl
    · exact h.owed x hx c hc hp
    · rw [hsame] at hp
      exact h.owed rd (List.mem_of_getElem? hrd) c hc hp
  · intro x hx
    obtain ⟨i, hi⟩ := List.mem_iff_getElem?.mp hx
    rcases getElem?_set_cases hi with ⟨-, rfl⟩ | ⟨hir, hi'⟩
    · subst hrd'
      refine
        { join_le := hr.join_le, boundary := hr.boundary, limit := hr.limit,
          settled := hr.settled, decremented := hr.decremented, close := hr.close, owns := ?_,
          clearing := ?_, staying := ?_, leaving := ?_, closed := ?_ }
      · rintro hdr' (hpc' | hpc') <;> cases hpc'
      · intro step'' hdr' total' hpc'
        cases hpc'
        exact ⟨b, hb, hclear.hdr_eq, hclear.total_eq, hclear.passed, hclear.joined, hclear.live,
          (hpending b.offset).trans hclear.none_pending, hclear.settled, hmem⟩
      all_goals simp
    · have hx' := List.mem_of_getElem? hi'
      have hxr := h.reader x hx'
      refine
        { join_le := hxr.join_le, boundary := hxr.boundary, limit := hxr.limit,
          settled := hxr.settled, decremented := hxr.decremented, close := hxr.close, owns := ?_,
          clearing := ?_, staying := hxr.staying, leaving := hxr.leaving, closed := hxr.closed }
      · intro hdr' hpc'
        obtain ⟨c, hc⟩ := hxr.owns hdr' hpc'
        exact ⟨c, hc.mem_log, hc.hdr_eq, hc.position, hc.settled, hc.pending⟩
      · -- another reader clears another block
        intro step'' hdr' total' hpc'
        obtain ⟨c, hc⟩ := hxr.clearing step'' hdr' total' hpc'
        have hne : c ≠ b := by
          rintro rfl
          exact hir (hunique i x hi' ⟨step'', hdr', total', hpc'⟩ hc.passed)
        have hsame' := hbytes c hc.mem_log hne hc.live (Stage.ne_waiting_of_settled hc.settled)
        have hclen := (h.shape c hc.mem_log).length_ge
        refine ⟨c, hc.mem_log, hc.hdr_eq, hc.total_eq, hc.passed, hc.joined, hc.live,
          (hpending c.offset).trans hc.none_pending, hc.settled, ?_⟩
        have hhdr := hc.hdr_eq
        subst hhdr
        exact hc.memory.congr (hsame'.mono (Nat.le_refl _) (by omega))
  · intro c hc hst
    exact (hpending c.offset).trans (h.unsettled c hc hst)
  · intro c hc hlive
    change BlockMem Q mem' c (s.stage c.offset) ((s.readers.set r rd').countP (·.pending c.offset))
    rw [hpending]
    have hold := h.block c hc hlive
    by_cases hne : c = b
    · rw [hne]
      rw [hne] at hold
      exact hold.of_none_pending hclear.none_pending hcount
    · by_cases hst : s.stage c.offset = .waiting
      · rw [hst]
        exact BlockMem.of_rank_le_one (by decide)
      · exact hold.congr (h.shape c hc) (hbytes c hc hne hlive hst)
  · intro c hc hlive hzero
    obtain ⟨x, hx, hxc, hfin⟩ := h.cleared c hc hlive ((hpending c.offset).symm.trans hzero)
    by_cases hxr : x = rd
    · subst hxr
      refine ⟨rd', List.mem_set (lt_of_getElem? hrd) _, ?_, ?_⟩
      · subst hrd'
        exact ⟨step', hdr, total, rfl⟩
      · rw [hpassed, ← hclear.passed, hfin]
    · exact ⟨x, mem_set_of_ne hrd hx hxr, hxc, hfin⟩
  · intro i j x y hi hj hx hy heq
    rcases getElem?_set_cases hi with ⟨hir, hxr⟩ | ⟨-, hi'⟩
    · rcases getElem?_set_cases hj with ⟨hjr, -⟩ | ⟨-, hj'⟩
      · rw [hir, hjr]
      · rw [hxr, hpassed] at heq
        rw [hir, hunique j y hj' hy heq.symm]
    · rcases getElem?_set_cases hj with ⟨hjr, hyr⟩ | ⟨-, hj'⟩
      · rw [hyr, hpassed] at heq
        rw [hjr, hunique i x hi' hx heq]
      · exact h.one_clears i j x y hi' hj' hx hy heq

/-- The steps between `fetch_sub` and the addition to `read_offset`. -/
theorem Inv.clearBlock (h : Inv Q s) (hrd : s.readers[r]? = some rd) {step : ClearStep}
    {hdr total : Nat} (hpc : rd.pc = .clearing step hdr total)
    (hclear : Clears Q s rd step hdr total b) (hstep : step ≠ .advance) :
    Inv Q (clearStep s r rd step hdr total) := by
  have hshape := h.shape b hclear.mem_log
  have hlen := hshape.length_ge
  have hhdr := hclear.hdr_eq
  have htotal := hclear.total_eq
  subst hhdr htotal
  cases step with
  | body =>
    have hsize := hclear.memory.size rfl
    have hout := fill_sameOutside (m := s.mem) (a := b.hdr Q + sizeofMessageHeader)
      (n := messageSize s.mem (b.hdr Q)) 0
    simp only [sizeofMessageHeader] at hout
    apply h.clearFrame hrd hpc hclear (.of_sameOutside hout (by omega) (by omega))
      (hout.sameOn (by omega))
    constructor <;> intro hnext <;> cases hnext
  | size =>
    have hout := setMessageSize_sameOutside s.mem (b.hdr Q) 0
    apply h.clearFrame hrd hpc hclear (.of_sameOutside hout (by omega) (by omega))
      (hout.sameOn (by omega))
    constructor <;> intro hnext <;> cases hnext
  | type =>
    have hout := setType_sameOutside s.mem (b.hdr Q) .normal
    apply h.clearFrame hrd hpc hclear (.of_sameOutside hout (by omega) (by omega))
      (hout.sameOn (by omega))
    constructor <;> intro hnext <;> cases hnext
  | flag =>
    have hout := setCommitFlag_sameOutside s.mem (b.hdr Q) .notReady
    apply h.clearFrame hrd hpc hclear (.of_sameOutside hout (by omega) (by omega))
      (hout.sameOn (by omega))
    constructor
    · intro hnext
      cases hnext
    · intro _
      exact commitFlag_set _
  | advance => exact absurd rfl hstep

/-! ### Moving the low watermark -/

/-- Where the watermark is when the block a reader cleared is the oldest one. -/
theorem Inv.advance (h : Inv Q s) (hrd : s.readers[r]? = some rd) {hdr total : Nat}
    (hpc : rd.pc = .clearing .advance hdr total)
    (hclear : Clears Q s rd .advance hdr total b) (hmark : s.readOffset = b.offset) :
    Inv Q (clearStep s r rd .advance hdr total) := by
  have hr := h.reader rd (List.mem_of_getElem? hrd)
  have hb := hclear.mem_log
  have hlen := (h.shape b hb).length_ge
  have hadd : add64 s.readOffset total = b.finish := by
    rw [hmark, hclear.total_eq, h.add64_length hb]
  simp only [clearStep, hadd]
  generalize hrd' : ({ rd with pc := rd.afterRelease } : Reader) = rd'
  have hasserts : (s.assertsHold && decide (b.finish = rd.absReadOffset)) = true := by
    rw [h.asserts, hclear.passed]
    simp
  rw [hasserts]
  have hsame : ∀ off, rd'.pending off = rd.pending off := by
    subst hrd'
    intro off
    rfl
  have hpending : ∀ off, (s.readers.set r rd').countP (·.pending off) = s.pendingCount off :=
    fun off => countP_set_of_eq _ hrd (hsame off)
  have hactive : (s.readers.set r rd').countP Reader.active = s.readers.countP Reader.active :=
    countP_set_of_eq _ hrd (by subst hrd'; rfl)
  have hisClearing : rd.isClearing := ⟨_, _, _, hpc⟩
  have hnot' : ¬ rd'.isClearing := by
    rintro ⟨step, hdr', total', hpc'⟩
    subst hrd'
    simp only [Reader.afterRelease] at hpc'
    split at hpc' <;> cases hpc'
  -- what is live and not `b` starts behind `b`
  have hbehind : ∀ c ∈ s.log, c ≠ b → s.readOffset ≤ c.offset → b.finish ≤ c.offset := by
    intro c hc hne hlive
    apply h.finish_le_of_lt hb hc
    rcases Nat.lt_or_ge b.offset c.offset with hlt | hge
    · exact hlt
    · exact absurd (h.eq_of_offset_eq hc hb (by omega)) hne
  have howed : ∀ x ∈ s.readers, ∀ c ∈ s.log, x.pending c.offset = true → b.finish ≤ c.offset := by
    intro x hx c hc hp
    apply hbehind c hc _ (h.owed x hx c hc hp)
    rintro rfl
    have hpos := State.pendingCount_pos hx hp
    have hnone := hclear.none_pending
    omega
  refine
    { tiles := h.tiles, word := ?_, shape := h.shape, counted := h.counted, room := h.room,
      mark := h.tiles.boundary_end hb, window := ?_, owed := ?_, reader := ?_, unsettled := ?_,
      block := ?_, cleared := ?_, one_clears := ?_, asserts := rfl }
  · change Packs _ ((s.readers.set r rd').countP Reader.active) _
    rw [hactive]
    exact h.word
  · intro c hc hst
    have hold := h.window c hc hst
    change c.finish ≤ b.finish + Q.bytes
    simp only [Block.finish] at hold ⊢
    omega
  · intro x hx c hc hp
    rcases List.mem_or_eq_of_mem_set hx with hx | rfl
    · exact howed x hx c hc hp
    · rw [hsame] at hp
      exact howed rd (List.mem_of_getElem? hrd) c hc hp
  · intro x hx
    obtain ⟨i, hi⟩ := List.mem_iff_getElem?.mp hx
    rcases getElem?_set_cases hi with ⟨-, rfl⟩ | ⟨hir, hi'⟩
    · subst hrd'
      have hafter : rd.afterRelease = .draining ∨ rd.afterRelease = .idle := by
        simp only [Reader.afterRelease]
        split
        · exact Or.inl rfl
        · exact Or.inr rfl
      refine
        { join_le := hr.join_le, boundary := hr.boundary, limit := hr.limit,
          settled := hr.settled, decremented := hr.decremented, close := hr.close, owns := ?_,
          clearing := ?_, staying := ?_, leaving := ?_, closed := ?_ }
      · intro hdr' hpc'
        simp only at hpc'
        rcases hafter with hafter | hafter <;> simp [hafter] at hpc'
      · intro step hdr' total' hpc'
        exact absurd ⟨step, hdr', total', hpc'⟩ hnot'
      · intro hpc'
        simp only [Reader.afterRelease] at hpc'
        change rd.leaveOffset = none
        cases hleave : rd.leaveOffset with
        | none => rfl
        | some e => simp [hleave] at hpc'
      · intro hpc'
        simp only [Reader.afterRelease] at hpc'
        change rd.leaveOffset.isSome = true
        cases hleave : rd.leaveOffset with
        | none => simp [hleave] at hpc'
        | some e => rfl
      · intro hpc'
        simp only at hpc'
        rcases hafter with hafter | hafter <;> simp [hafter] at hpc'
    · have hx' := List.mem_of_getElem? hi'
      have hxr := h.reader x hx'
      refine
        { join_le := hxr.join_le, boundary := hxr.boundary, limit := hxr.limit,
          settled := hxr.settled, decremented := hxr.decremented, close := hxr.close, owns := ?_,
          clearing := ?_, staying := hxr.staying, leaving := hxr.leaving, closed := hxr.closed }
      · intro hdr' hpc'
        obtain ⟨c, hc⟩ := hxr.owns hdr' hpc'
        exact ⟨c, hc.mem_log, hc.hdr_eq, hc.position, hc.settled, hc.pending⟩
      · intro step hdr' total' hpc'
        obtain ⟨c, hc⟩ := hxr.clearing step hdr' total' hpc'
        have hne : c ≠ b := by
          rintro rfl
          exact hir (h.one_clears i r x rd hi' hrd ⟨step, hdr', total', hpc'⟩ hisClearing
            (hc.passed.trans hclear.passed.symm))
        exact ⟨c, hc.mem_log, hc.hdr_eq, hc.total_eq, hc.passed, hc.joined,
          hbehind c hc.mem_log hne hc.live, (hpending c.offset).trans hc.none_pending,
          hc.settled, hc.memory⟩
  · intro c hc hst
    exact (hpending c.offset).trans (h.unsettled c hc hst)
  · intro c hc hlive
    have hlive' : b.finish ≤ c.offset := hlive
    change BlockMem Q s.mem c (s.stage c.offset) ((s.readers.set r rd').countP (·.pending c.offset))
    rw [hpending]
    apply h.block c hc
    simp only [Block.finish] at hlive'
    omega
  · intro c hc hlive hzero
    have hlive' : b.finish ≤ c.offset := hlive
    have hold : s.readOffset ≤ c.offset := by
      simp only [Block.finish] at hlive'
      omega
    obtain ⟨x, hx, hxc, hfin⟩ := h.cleared c hc hold ((hpending c.offset).symm.trans hzero)
    refine ⟨x, mem_set_of_ne hrd hx ?_, hxc, hfin⟩
    rintro rfl
    have hcb := h.eq_of_finish_eq hc hb (hfin.symm.trans hclear.passed)
    rw [hcb] at hlive'
    simp only [Block.finish] at hlive'
    omega
  · intro i j x y hi hj hx hy heq
    rcases getElem?_set_cases hi with ⟨-, rfl⟩ | ⟨-, hi'⟩
    · exact absurd hx hnot'
    · rcases getElem?_set_cases hj with ⟨-, rfl⟩ | ⟨-, hj'⟩
      · exact absurd hy hnot'
      · exact h.one_clears i j x y hi' hj' hx hy heq

/-- While nobody leaves, only the oldest live block can be cleared: a reader
that owed an older block would owe this one as well. -/
theorem Inv.mark_eq_of_no_leave (h : Inv Q s) (hstay : ∀ x ∈ s.readers, x.leaveOffset = none)
    (hb : b ∈ s.log) (hlive : s.readOffset ≤ b.offset) (hnone : s.pendingCount b.offset = 0) :
    s.readOffset = b.offset := by
  by_contra hne
  have hlt : s.readOffset < s.writeOffset := by
    have := h.offset_lt hb
    omega
  obtain ⟨c, hc, hstart⟩ := h.mark.exists_of_lt hlt
  have hfin := h.finish_le_of_lt hc hb (by omega)
  -- nobody owes the block at the watermark either
  have hpassed : ∀ x ∈ s.readers, b.offset < x.absReadOffset := by
    intro x hx
    by_contra hle
    have hp : x.pending b.offset = true := by
      rw [Reader.pending_iff, hstay x hx]
      exact ⟨by omega, by simp⟩
    have := State.pendingCount_pos hx hp
    omega
  have hzero : s.pendingCount c.offset = 0 := by
    by_contra hpos
    obtain ⟨x, hx, hp⟩ := State.pendingCount_pos_iff.mp (Nat.pos_of_ne_zero hpos)
    have := hpassed x hx
    have := (Reader.pending_iff.mp hp).1
    omega
  -- so it is being cleared by a reader that did not get past it
  obtain ⟨x, hx, -, hxfin⟩ := h.cleared c hc (by omega) hzero
  have := hpassed x hx
  omega

end

end MockExchange
