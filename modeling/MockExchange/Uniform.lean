import MockExchange.Delivery

/-!
# Channels with one payload size

When every claim asks for the same payload size, headers sit at the multiples of
one length on every lap. No payload byte is ever read as a header then, and a
set flag at such a place belongs to a live block that was settled, whose header
is still there.
-/

namespace MockExchange

open ByteMemory Tiling MessageHeader Transition ListUpdate Memory

/-- A place for a header when every payload has `size` bytes. -/
def Slot (Q : RingSize) (size p : Nat) : Prop :=
  p % (size + 18) = 0 ∧ p + 18 ≤ Q.bytes

structure Uniform (Q : RingSize) (size : Nat) (s : State) : Prop where
  sized : ∀ b ∈ s.log, b.size = size
  aligned : ∀ b ∈ s.log, Slot Q size (b.hdr Q)
  aligned_end : Slot Q size (s.writeOffset % Q.bytes)
  flag : ∀ p, Slot Q size p → commitFlag s.mem p ≠ 0 →
    ∃ b ∈ s.log, b.hdr Q = p ∧ s.readOffset ≤ b.offset ∧
      (s.stage b.offset).settled = true ∧ absOffset s.mem p = b.offset ∧
        commitFlag s.mem p = (s.stage b.offset).flag.toByte

section

variable {Q : RingSize} {size : Nat} {s t : State} {b c : Block} {r : Nat} {rd : Reader}

/-! ### Slots and blocks -/

theorem add_le_of_multiples {n a b : Nat} (ha : a % n = 0) (hb : b % n = 0) (h : a < b) :
    a + n ≤ b := by
  have hda := Nat.div_add_mod a n
  have hdb := Nat.div_add_mod b n
  rw [ha, Nat.add_zero] at hda
  rw [hb, Nat.add_zero] at hdb
  rw [← hda, ← hdb] at h ⊢
  have hlt := Nat.lt_of_mul_lt_mul_left h
  calc n * (a / n) + n = n * (a / n + 1) := by ring
    _ ≤ n * (b / n) := Nat.mul_le_mul_left n hlt

/-- The header of another slot is not inside the block. -/
theorem slot_disjoint (hb : b.Shape Q) (hsize : b.size = size) (hslot : Slot Q size (b.hdr Q))
    {p : Nat} (hp : Slot Q size p) (hne : p ≠ b.hdr Q) :
    p + 18 ≤ b.hdr Q ∨ b.hdr Q + b.length ≤ p := by
  rcases Nat.lt_or_ge p (b.hdr Q) with hlt | hge
  · have := add_le_of_multiples hp.1 hslot.1 hlt
    omega
  · have hstep := add_le_of_multiples hslot.1 hp.1 (by omega)
    have hroom := hp.2
    rcases hb.cases with ⟨-, hlen, -⟩ | ⟨-, -, hover⟩
    · omega
    · omega

theorem Block.Frame.sameOn_slot {m m' : Memory} (h : b.Frame Q m m') (hb : b.Shape Q)
    (hsize : b.size = size) (hslot : Slot Q size (b.hdr Q)) {p : Nat} (hp : Slot Q size p)
    (hne : p ≠ b.hdr Q) : SameOn m m' p 18 := by
  have hroom := hp.2
  have hdisjoint := slot_disjoint hb hsize hslot hp hne
  intro i hlo hhi
  exact h i (by omega) (by omega)

/-- The block behind a slot's block starts at a slot. -/
theorem slot_finish (hb : b.Shape Q) (hsize : b.size = size) (hslot : Slot Q size (b.hdr Q)) :
    Slot Q size (b.finish % Q.bytes) := by
  refine ⟨?_, hb.room_finish⟩
  have hlt := hb.hdr_lt
  rcases hb.cases with ⟨-, hlen, hfit⟩ | ⟨-, hend, -⟩
  · have hmod : b.finish % Q.bytes = b.hdr Q + b.length := by
      rw [Block.finish, ← Nat.mod_add_mod]
      exact Nat.mod_eq_of_lt (by change b.hdr Q + b.length < _; omega)
    rw [hmod, hlen, hsize, Nat.add_mod_right]
    exact hslot.1
  · have hmod : b.finish % Q.bytes = 0 := by
      rw [Block.finish, ← Nat.mod_add_mod]
      change (b.hdr Q + b.length) % Q.bytes = 0
      rw [hend, Nat.mod_self]
    rw [hmod, Nat.zero_mod]

/-- Two live blocks past the wait loop that start at one slot are the same. -/
theorem Inv.eq_of_hdr_eq (h : Inv Q s) (hb : b ∈ s.log) (hc : c ∈ s.log)
    (hbl : s.readOffset ≤ b.offset) (hcl : s.readOffset ≤ c.offset)
    (hbw : b.finish ≤ s.readOffset + Q.bytes) (hcw : c.finish ≤ s.readOffset + Q.bytes)
    (hhdr : b.hdr Q = c.hdr Q) : b = c := by
  by_contra hne
  have hblen := (h.shape b hb).length_ge
  have hclen := (h.shape c hc).length_ge
  have := h.ring_disjoint hb hc hne hbl hcl hbw hcw
  omega

/-- Before its writer settles it, the flag of an admitted block is clear. -/
theorem Uniform.flag_clear (hu : Uniform Q size s) (h : Inv Q s) (hb : b ∈ s.log)
    (hunsettled : (s.stage b.offset).settled = false) (hadmitted : s.stage b.offset ≠ .waiting) :
    commitFlag s.mem (b.hdr Q) = 0 := by
  by_contra hflag
  obtain ⟨c, hc, hhdr, hcl, hst, -, -⟩ := hu.flag _ (hu.aligned b hb) hflag
  have hbl := (h.live_of_unsettled hb hunsettled).1
  have hcb := h.eq_of_hdr_eq hc hb hcl hbl (h.window_of_settled hc hst)
    (h.window b hb hadmitted) hhdr
  rw [hcb, hunsettled] at hst
  cases hst

/-- Where a reader looks for its next header is a slot. -/
theorem Uniform.slot_of_reader (hu : Uniform Q size s) (h : Inv Q s) (hrd : rd ∈ s.readers) :
    Slot Q size (rd.absReadOffset % Q.bytes) := by
  rcases (h.reader rd hrd).boundary with hend | ⟨b, hb, hstart⟩
  · rw [hend]
    exact hu.aligned_end
  · rw [← hstart]
    exact hu.aligned b hb

/-- A set flag whose header carries the reader's offset belongs to the block
reserved there. -/
theorem Uniform.settledAt (hu : Uniform Q size s) (h : Inv Q s) (hrd : rd ∈ s.readers)
    (hflag : commitFlag s.mem (rd.absReadOffset % Q.bytes) ≠ 0)
    (hoff : absOffset s.mem (rd.absReadOffset % Q.bytes) = rd.absReadOffset) :
    ∃ b ∈ s.log, b.offset = rd.absReadOffset ∧ (s.stage b.offset).settled = true ∧
      commitFlag s.mem (rd.absReadOffset % Q.bytes) = (s.stage b.offset).flag.toByte := by
  obtain ⟨b, hb, -, -, hst, habs, hval⟩ := hu.flag _ (hu.slot_of_reader h hrd) hflag
  exact ⟨b, hb, habs.symm.trans hoff, hst, hval⟩

/-! ### One step -/

theorem Inv.writeOffset_eq (h : Inv Q s) (h' : Inv Q t) (hlog : t.log = s.log) :
    t.writeOffset = s.writeOffset := by
  have htiles := h'.tiles
  rw [hlog] at htiles
  exact htiles.end_unique h.tiles

/-- A step that keeps the log and the watermark, and the ring but for one block. -/
theorem Uniform.of_frame (hu : Uniform Q size s) (h : Inv Q s) (h' : Inv Q t)
    (hlog : t.log = s.log) (hread : t.readOffset = s.readOffset)
    (hstage : ∀ c ∈ s.log, (s.stage c.offset).settled = true →
      t.stage c.offset = s.stage c.offset)
    (hb : b ∈ s.log) (hframe : b.Frame Q s.mem t.mem)
    (hslot : commitFlag t.mem (b.hdr Q) ≠ 0 →
      (commitFlag s.mem (b.hdr Q) ≠ 0 ∧ SameOn s.mem t.mem (b.hdr Q) 8 ∧
        SameOn s.mem t.mem (b.hdr Q + 17) 1) ∨
      (s.readOffset ≤ b.offset ∧ (t.stage b.offset).settled = true ∧
        absOffset t.mem (b.hdr Q) = b.offset ∧
        commitFlag t.mem (b.hdr Q) = (t.stage b.offset).flag.toByte)) : Uniform Q size t := by
  have hwrite := h.writeOffset_eq h' hlog
  refine ⟨by rw [hlog]; exact hu.sized, by rw [hlog]; exact hu.aligned, ?_, ?_⟩
  · rw [hwrite]
    exact hu.aligned_end
  · -- a flag that was set before still has its block
    have hold : ∀ p, Slot Q size p → commitFlag s.mem p ≠ 0 → SameOn s.mem t.mem p 8 →
        SameOn s.mem t.mem (p + 17) 1 → ∃ b ∈ t.log, b.hdr Q = p ∧ t.readOffset ≤ b.offset ∧
          (t.stage b.offset).settled = true ∧ absOffset t.mem p = b.offset ∧
            commitFlag t.mem p = (t.stage b.offset).flag.toByte := by
      intro p hp hflag hsame8 hsame17
      obtain ⟨c, hc, hhdr, hcl, hst, habs, hval⟩ := hu.flag p hp hflag
      rw [hlog, hread]
      refine ⟨c, hc, hhdr, hcl, ?_, ?_, ?_⟩
      · rw [hstage c hc hst]
        exact hst
      · rw [absOffset_congr hsame8]
        exact habs
      · rw [commitFlag_congr hsame17, hstage c hc hst]
        exact hval
    intro p hp hflag
    by_cases hne : p = b.hdr Q
    · rw [hne] at hp hflag ⊢
      rcases hslot hflag with ⟨hflag', hsame8, hsame17⟩ | ⟨hbl, hst, habs, hval⟩
      · exact hold _ hp hflag' hsame8 hsame17
      · rw [hlog, hread]
        exact ⟨b, hb, rfl, hbl, hst, habs, hval⟩
    · have hsame := hframe.sameOn_slot (h.shape b hb) (hu.sized b hb) (hu.aligned b hb) hp hne
      have hsame17 : SameOn s.mem t.mem (p + 17) 1 := hsame.mono (by omega) (by omega)
      apply hold p hp _ (hsame.mono (by omega) (by omega)) hsame17
      rw [← commitFlag_congr hsame17]
      exact hflag

/-- A step that leaves the ring alone. -/
theorem Uniform.of_same_mem (hu : Uniform Q size s) (h : Inv Q s) (h' : Inv Q t)
    (hlog : t.log = s.log) (hread : t.readOffset = s.readOffset)
    (hstage : ∀ c ∈ s.log, (s.stage c.offset).settled = true →
      t.stage c.offset = s.stage c.offset) (hmem : t.mem = s.mem) : Uniform Q size t := by
  have hwrite := h.writeOffset_eq h' hlog
  refine ⟨by rw [hlog]; exact hu.sized, by rw [hlog]; exact hu.aligned, ?_, ?_⟩
  · rw [hwrite]
    exact hu.aligned_end
  · intro p hp hflag
    rw [hmem] at hflag ⊢
    obtain ⟨c, hc, hhdr, hcl, hst, habs, hval⟩ := hu.flag p hp hflag
    rw [hlog, hread]
    refine ⟨c, hc, hhdr, hcl, ?_, habs, ?_⟩
    · rw [hstage c hc hst]
      exact hst
    · rw [hstage c hc hst]
      exact hval

theorem Uniform.init (hQ : 18 ≤ Q.bytes) : Uniform Q size State.init := by
  refine ⟨by simp [State.init], by simp [State.init], ?_, ?_⟩
  · change Slot Q size (0 % Q.bytes)
    rw [Nat.zero_mod]
    exact ⟨Nat.zero_mod _, by omega⟩
  · intro p _ hflag
    exact absurd rfl hflag

theorem Uniform.reserve (hu : Uniform Q size s) (h : Inv Q s) {data : List UInt8}
    (h' : Inv Q (reserve Q s size data)) : Uniform Q size (reserve Q s size data) := by
  have hnew : newBlock Q s size data ∈ (MockExchange.reserve Q s size data).log := by
    simp [reserve_log]
  have hwrite : (MockExchange.reserve Q s size data).writeOffset =
      (newBlock Q s size data).finish := by
    have htiles := h'.tiles
    rw [reserve_log] at htiles
    have hpos := (h'.shape _ hnew).length_ge
    exact htiles.end_unique (h.tiles.append rfl (by omega))
  refine ⟨?_, ?_, ?_, ?_⟩
  · intro b hb
    rw [reserve_log, List.mem_append, List.mem_singleton] at hb
    rcases hb with hold | rfl
    · exact hu.sized b hold
    · rfl
  · intro b hb
    rw [reserve_log, List.mem_append, List.mem_singleton] at hb
    rcases hb with hold | rfl
    · exact hu.aligned b hold
    · exact hu.aligned_end
  · rw [hwrite]
    exact slot_finish (h'.shape _ hnew) rfl hu.aligned_end
  · intro p hp hflag
    obtain ⟨c, hc, hhdr, hcl, hst, habs, hval⟩ := hu.flag p hp hflag
    have hstage : (MockExchange.reserve Q s size data).stage c.offset = s.stage c.offset :=
      Function.update_of_ne (Nat.ne_of_lt (h.offset_lt hc)) _ _
    refine ⟨c, by simp [reserve_log, hc], hhdr, hcl, ?_, habs, ?_⟩
    · rw [hstage]
      exact hst
    · rw [hstage]
      exact hval

/-- The flag a writer sets when it settles its block. -/
theorem Uniform.settle (hu : Uniform Q size s) (h : Inv Q s) (h' : Inv Q t) (hb : b ∈ s.log)
    (hunsettled : (s.stage b.offset).settled = false) {stage' : Stage} {m : Memory}
    {asserts : Bool} (ht : t = { s with
      mem := m, stage := Function.update s.stage b.offset stage', assertsHold := asserts })
    (hsettled : stage'.settled = true) (hframe : b.Frame Q s.mem m) : Uniform Q size t := by
  obtain ⟨hbl, hpos⟩ := h.live_of_unsettled hb hunsettled
  have hstage : t.stage b.offset = stage' := by
    rw [ht]
    exact Function.update_self _ _ _
  have hmem := h'.block b (by rw [ht]; exact hb) (by rw [ht]; exact hbl)
  have hpos' : 0 < t.pendingCount b.offset := by
    rw [ht]
    exact hpos
  have hst : (t.stage b.offset).settled = true := by rw [hstage]; exact hsettled
  have hrank := Stage.rank_of_settled hst
  refine hu.of_frame h h' (by rw [ht]) (by rw [ht]) ?_ hb (by rw [ht]; exact hframe) ?_
  · intro c _ hc
    rw [ht]
    apply Function.update_of_ne
    intro heq
    rw [heq, hunsettled] at hc
    cases hc
  · intro _
    exact Or.inr ⟨hbl, hst, hmem.absOffset (by omega) hpos', hmem.commitFlag hst hpos'⟩

theorem Uniform.storeHeader (hu : Uniform Q size s) (h : Inv Q s) (hb : b ∈ s.log)
    (hwriting : (s.stage b.offset).isWritingHeader = true) (h' : Inv Q (storeHeader Q s b)) :
    Uniform Q size (storeHeader Q s b) := by
  have hunsettled : (s.stage b.offset).settled = false := by
    cases hstage : s.stage b.offset <;> simp [hstage, Stage.isWritingHeader] at hwriting <;> rfl
  have hadmitted : s.stage b.offset ≠ .waiting := by
    intro hwaiting
    rw [hwaiting] at hwriting
    cases hwriting
  have hlen := (h.shape b hb).length_ge
  obtain ⟨stage', m', heq, hst', -, hout⟩ := storeHeader_eq (Q := Q) hwriting
  rw [heq] at h' ⊢
  refine hu.of_frame h h' rfl rfl ?_ hb (.of_sameOutside hout (by omega) (by omega)) ?_
  · intro c _ hc
    apply Function.update_of_ne
    intro hoff
    rw [hoff, hunsettled] at hc
    cases hc
  · intro hflag
    have hsame : SameOn s.mem m' (b.hdr Q + 17) 1 := hout.sameOn (by omega)
    have hclear := hu.flag_clear h hb hunsettled hadmitted
    change commitFlag m' (b.hdr Q) ≠ 0 at hflag
    rw [commitFlag_congr hsame, hclear] at hflag
    exact absurd rfl hflag

theorem Uniform.fetchSub (hu : Uniform Q size s) (h : Inv Q s) (hrd : s.readers[r]? = some rd)
    {hdr : Nat} (hb : Owns Q s rd hdr b) (h' : Inv Q (fetchSub Q s r rd hdr)) :
    Uniform Q size (fetchSub Q s r rd hdr) := by
  have hlen := (h.shape b hb.mem_log).length_ge
  rw [h.fetchSub_eq hrd hb] at h' ⊢
  have hout := setNumReaders_sameOutside s.mem (b.hdr Q)
    (MessageHeader.numReaders s.mem (b.hdr Q) - 1)
  refine hu.of_frame h h' rfl rfl (fun _ _ _ => rfl) hb.mem_log
    (.of_sameOutside hout (by omega) (by omega)) ?_
  intro hflag
  have hsame : SameOn s.mem (setNumReaders s.mem (b.hdr Q)
      (MessageHeader.numReaders s.mem (b.hdr Q) - 1)) (b.hdr Q + 17) 1 := hout.sameOn (by omega)
  refine Or.inl ⟨?_, hout.sameOn (by omega), hsame⟩
  rw [← commitFlag_congr hsame]
  exact hflag

/-- A clearing step before the flag is cleared leaves flag and offset alone. -/
theorem Uniform.clearFrame (hu : Uniform Q size s) (h : Inv Q s) (h' : Inv Q t)
    (hb : b ∈ s.log) (hlog : t.log = s.log) (hread : t.readOffset = s.readOffset)
    (hstage : t.stage = s.stage) {lo n : Nat} (hout : SameOutside s.mem t.mem lo n)
    (hlo : b.hdr Q + 8 ≤ lo) (hflag : lo + n ≤ b.hdr Q + 17 ∨ b.hdr Q + 18 ≤ lo)
    (hhi : lo + n ≤ b.hdr Q + b.length) : Uniform Q size t := by
  refine hu.of_frame h h' hlog hread (fun _ _ _ => by rw [hstage]) hb
    (.of_sameOutside hout (by omega) (Or.inl hhi)) ?_
  intro hset
  have hsame : SameOn s.mem t.mem (b.hdr Q + 17) 1 := hout.sameOn (by omega)
  refine Or.inl ⟨?_, hout.sameOn (by omega), hsame⟩
  rw [← commitFlag_congr hsame]
  exact hset

theorem Uniform.clearStep (hu : Uniform Q size s) (h : Inv Q s) (hrd : s.readers[r]? = some rd)
    {step : ClearStep} {hdr total : Nat} (hpc : rd.pc = .clearing step hdr total)
    (hadvance : s.AdvancesTo rd) (h' : Inv Q (clearStep s r rd step hdr total)) :
    Uniform Q size (clearStep s r rd step hdr total) := by
  obtain ⟨b, hb⟩ := (h.reader rd (List.mem_of_getElem? hrd)).clearing _ _ _ hpc
  have hlen := (h.shape b hb.mem_log).length_ge
  have hhdr := hb.hdr_eq
  have htotal := hb.total_eq
  subst hhdr htotal
  cases step with
  | body =>
    have hsize := hb.memory.size rfl
    have hout := fill_sameOutside (m := s.mem) (a := b.hdr Q + sizeofMessageHeader)
      (n := messageSize s.mem (b.hdr Q)) 0
    simp only [sizeofMessageHeader] at hout
    exact hu.clearFrame h h' hb.mem_log rfl rfl rfl hout (by omega) (by omega) (by omega)
  | size =>
    have hout := setMessageSize_sameOutside s.mem (b.hdr Q) 0
    exact hu.clearFrame h h' hb.mem_log rfl rfl rfl hout (by omega) (by omega) (by omega)
  | type =>
    have hout := setType_sameOutside s.mem (b.hdr Q) .normal
    exact hu.clearFrame h h' hb.mem_log rfl rfl rfl hout (by omega) (by omega) (by omega)
  | flag =>
    have hout := setCommitFlag_sameOutside s.mem (b.hdr Q) .notReady
    refine hu.of_frame h h' rfl rfl (fun _ _ _ => rfl) hb.mem_log
      (.of_sameOutside hout (by omega) (by omega)) ?_
    intro hflag
    exact absurd (commitFlag_set _) hflag
  | advance =>
    simp only [State.AdvancesTo, hpc, hb.passed] at hadvance
    have hread : (MockExchange.clearStep s r rd .advance (b.hdr Q) b.length).readOffset =
        b.finish := by
      change add64 s.readOffset b.length = _
      have hlt := h.finish_lt hb.mem_log
      rw [add64, hadvance]
      exact Nat.mod_eq_of_lt (by omega)
    refine ⟨hu.sized, hu.aligned, ?_, ?_⟩
    · rw [h.writeOffset_eq h' rfl]
      exact hu.aligned_end
    · intro p hp hflag
      obtain ⟨c, hc, hhdr, hcl, hst, habs, hval⟩ := hu.flag p hp hflag
      refine ⟨c, hc, hhdr, ?_, hst, habs, hval⟩
      rw [hread]
      -- the flag of the block that was cleared is not set any more
      have hne : c ≠ b := by
        rintro rfl
        have hcleared := hb.memory.flag rfl
        rw [hhdr] at hcleared
        exact hflag hcleared
      apply h.finish_le_of_lt hb.mem_log hc
      have hoff : c.offset ≠ b.offset := fun heq => hne (h.eq_of_offset_eq hc hb.mem_log heq)
      simp only [Block.finish] at hadvance
      omega

theorem Uniform.step (hu : Uniform Q size s) (h : Inv Q s) (h' : Inv Q t) {a : Action}
    (hsound : Sound Q s a) (hsize : ∀ n data, a = .reserve n data → n = size)
    (htaken : Taken Q s a t) : Uniform Q size t := by
  have hlocal : a.isLocal = true → Uniform Q size t := by
    intro ha
    obtain ⟨hmem, hlog, hstage, hread⟩ := htaken.sameShared ha
    exact hu.of_same_mem h h' hlog hread (fun _ _ _ => by rw [hstage]) hmem
  cases htaken with
  | join => exact hlocal rfl
  | @reserve n data =>
    have hn := hsize n data rfl
    subst hn
    exact hu.reserve h h'
  | @loadReadOffset b hb =>
    simp only [MockExchange.loadReadOffset] at h' ⊢
    split
    · exact hu
    · rename_i hwait
      rw [if_neg hwait] at h'
      refine hu.of_same_mem h h' rfl rfl ?_ rfl
      intro c _ hc
      apply Function.update_of_ne
      intro heq
      rw [heq, hb.2] at hc
      cases hc
  | storeHeader hb hst => exact hu.storeHeader h hb hst h'
  | finishSkip hb hpad =>
    exact hu.settle h h' hb.1 (by rw [hb.2]; rfl) rfl rfl
      (finishSkip_mem_frame (h.shape _ hb.1) hpad)
  | writeToBuffer hb hpad =>
    exact hu.settle h h' hb.1 (by rw [hb.2]; rfl) rfl rfl
      (writeToBuffer_mem_frame (h.shape _ hb.1) hpad)
  | abortBuffer hb =>
    have hpos := (h.live_of_unsettled hb.1 (by rw [hb.2]; rfl)).2
    have hmem := (h.blockMem_of_stage hb rfl).messageSize (by decide) hpos
    exact hu.settle h h' hb.1 (by rw [hb.2]; rfl) rfl rfl
      (abortBuffer_mem_frame (h.shape _ hb.1) hmem)
  | poll => exact hlocal rfl
  | loadCommitFlag => exact hlocal rfl
  | loadAbsOffset => exact hlocal rfl
  | loadSizeAndType => exact hlocal rfl
  | releaseHeld => exact hlocal rfl
  | releaseNext => exact hlocal rfl
  | fetchSub hrd hpc =>
    obtain ⟨b, hb⟩ := (h.reader _ (List.mem_of_getElem? hrd)).owns _ (Or.inr hpc)
    exact hu.fetchSub h hrd hb h'
  | clearStep hrd hpc => exact hu.clearStep h hrd hpc (hsound _ hrd) h'
  | leave => exact hlocal rfl
  | drain => exact hlocal rfl

/-! ### Polls find no stale header -/

/-- No claim has been aborted. -/
def State.NoAborts (s : State) : Prop := ∀ b ∈ s.log, s.stage b.offset ≠ .aborted

theorem State.NoAborts.update (hi : s.NoAborts) {off : Nat} {stage' : Stage}
    (hne : stage' ≠ .aborted) :
    ∀ b ∈ s.log, Function.update s.stage off stage' b.offset ≠ .aborted := by
  intro b hb
  by_cases heq : b.offset = off
  · rw [heq, Function.update_self]
    exact hne
  · rw [Function.update_of_ne heq]
    exact hi b hb

theorem State.NoAborts.step (hi : s.NoAborts) {a : Action} (htaken : Taken Q s a t)
    (hnot : ∀ b, a ≠ .abortBuffer b) : t.NoAborts := by
  have hlocal : a.isLocal = true → t.NoAborts := by
    intro ha
    obtain ⟨-, hlog, hstage, -⟩ := htaken.sameShared ha
    rw [State.NoAborts, hlog, hstage]
    exact hi
  cases htaken with
  | @reserve size data =>
    intro b hb
    rw [reserve_log, List.mem_append, List.mem_singleton] at hb
    rcases hb with hold | rfl
    · exact hi.update (by decide) b hold
    · change Function.update s.stage _ _ _ ≠ _
      rw [Function.update_self]
      decide
  | loadReadOffset hb =>
    simp only [MockExchange.loadReadOffset]
    split
    · exact hi
    · exact hi.update (by decide)
  | storeHeader hb hst =>
    obtain ⟨stage', m', heq, hunsettled, -, -⟩ := storeHeader_eq (Q := Q) hst
    rw [heq]
    apply hi.update
    rintro rfl
    cases hunsettled
  | finishSkip => exact hi.update (by decide)
  | writeToBuffer => exact hi.update (by decide)
  | abortBuffer => exact absurd rfl (hnot _)
  | fetchSub => exact hi
  | @clearStep r hdr total rd step =>
    obtain ⟨hlog, hstage, -, -⟩ := clearStep_keeps s r rd step hdr total
    rw [State.NoAborts, hlog, hstage]
    exact hi
  | _ => exact hlocal rfl

/-- An aborted flag at a reader's slot belongs to an aborted block there. -/
theorem Uniform.aborted_of_flag (hu : Uniform Q size s) (h : Inv Q s) (hrd : rd ∈ s.readers)
    (hflag : commitFlag s.mem (rd.absReadOffset % Q.bytes) = CommitFlag.aborted.toByte) :
    ∃ b ∈ s.log, absOffset s.mem (rd.absReadOffset % Q.bytes) = b.offset ∧
      s.stage b.offset = .aborted := by
  have hne : commitFlag s.mem (rd.absReadOffset % Q.bytes) ≠ 0 := by rw [hflag]; decide
  obtain ⟨b, hb, -, -, hst, habs, hval⟩ := hu.flag _ (hu.slot_of_reader h hrd) hne
  refine ⟨b, hb, habs, ?_⟩
  rcases Stage.settled_iff.mp hst with hcommitted | haborted
  · rw [hflag, hcommitted] at hval
    cases hval
  · exact haborted

/-- With one payload size a poll only ever acts on the block reserved at the
reader's offset, except that it takes any aborted flag for its own. -/
theorem Uniform.pollsSettled (hu : Uniform Q size s) (h : Inv Q s) (hrd : rd ∈ s.readers)
    (haborted : commitFlag s.mem (rd.absReadOffset % Q.bytes) = CommitFlag.aborted.toByte →
      absOffset s.mem (rd.absReadOffset % Q.bytes) = rd.absReadOffset) :
    s.PollsSettled Q rd := by
  have hfound : commitFlag s.mem (rd.absReadOffset % Q.bytes) ≠ 0 →
      absOffset s.mem (rd.absReadOffset % Q.bytes) = rd.absReadOffset →
      s.SettledAt rd.absReadOffset := by
    intro hflag habs
    obtain ⟨b, hb, hoff, hst, -⟩ := hu.settledAt h hrd hflag habs
    exact ⟨b, hb, hoff, by rw [← hoff]; exact hst⟩
  intro hout
  cases hcase : pollOutcome Q s.mem rd.absReadOffset with
  | nullopt => exact absurd hcase hout
  | skipAborted =>
    have hflag := pollOutcome_aborted hcase
    exact hfound (by rw [hflag]; decide) (haborted hflag)
  | skipPadding =>
    obtain ⟨hflag, habs, -⟩ := pollOutcome_ready hcase (Or.inr rfl)
    exact hfound (by rw [hflag]; decide) habs
  | wrapper =>
    obtain ⟨hflag, habs, -⟩ := pollOutcome_ready hcase (Or.inl rfl)
    exact hfound (by rw [hflag]; decide) habs

/-- Without aborts there is no aborted flag to find. -/
theorem Uniform.pollsSettled_of_noAborts (hu : Uniform Q size s) (h : Inv Q s)
    (hno : s.NoAborts) (hrd : rd ∈ s.readers) : s.PollsSettled Q rd := by
  apply hu.pollsSettled h hrd
  intro hflag
  obtain ⟨b, hb, -, hst⟩ := hu.aborted_of_flag h hrd hflag
  exact absurd hst (hno b hb)

end

end MockExchange
