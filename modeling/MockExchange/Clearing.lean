import MockExchange.Fifo

/-!
# What a release leaves behind

The last reader of a block clears its body, its size, its type and its flag, and
its count has gone down to zero, but `abs_offset` stays. The free bytes of the
ring are zero as long as the bytes of `abs_offset` that are not zero come to lie
under blocks already reserved, where their writers overwrite them.
-/

namespace MockExchange

open ByteMemory Tiling MessageHeader Transition ListUpdate

variable (Q : RingSize)

/-- All readers joined before the first claim and none closes, nothing is
aborted, and a writer may leave the end of its payload unwritten. -/
def ClearingRun (s : State) (a : Action) : Prop :=
  PollingRun s a ∧ match a with
    | .join => s.log = [] ∧ s.activeReaders < 255
    | .reserve size data => size ≤ Q.bytes - 2 * sizeofMessageHeader ∧ s.MayReserve Q size data
    | .abortBuffer _ => False
    | _ => True

/-- The block's writer stores a byte at the offset `x`, or it is the body of a
skip message; it is not the flag. -/
def Block.Overwrites (c : Block) (x : Nat) : Prop :=
  c.offset ≤ x ∧ x < c.finish ∧ x ≠ c.offset + 17 ∧
    (c.isPadding Q = false → x < c.offset + 18 + c.data.length)

instance (c : Block) (x : Nat) : Decidable (c.Overwrites Q x) := by
  unfold Block.Overwrites; infer_instance

/-- When `read_offset` moves on, what is left of `abs_offset` lies a lap further
on under blocks already reserved. -/
def LeavesNoTrace (s : State) : Action → Prop
  | .releaseStep r => ∀ rd ∈ s.readers[r]?, match rd.pc with
    | .clearing .advance _ _ => ∀ i < 8, UInt8.ofNat (s.readOffset / 256 ^ i) ≠ 0 →
      ∃ c ∈ s.log, c.Overwrites Q (s.readOffset + i + Q.bytes)
    | _ => True
  | _ => True

instance (s : State) (a : Action) : Decidable (ClearingRun Q s a) := by
  apply Action.casesOn (motive := fun a => Decidable (ClearingRun Q s a)) a <;> intros <;>
    dsimp only [ClearingRun] <;> infer_instance

instance (s : State) (a : Action) : Decidable (LeavesNoTrace Q s a) := by
  apply Action.casesOn (motive := fun a => Decidable (LeavesNoTrace Q s a)) a
  case releaseStep =>
    intro r
    refine @Option.decidableForallMem _ _ (fun rd => ?_) _
    obtain ⟨_, _, _, pc, _, _, _⟩ := rd
    refine pc.casesOn ?_ ?_ ?_ ?_ ?_ (fun step => step.casesOn ?_ ?_ ?_ ?_ ?_) ?_ ?_ <;>
      intros <;> dsimp only <;> infer_instance
  all_goals intros; exact isTrue trivial

/-! ### The bytes a clearing reader has cleared -/

def ClearStep.cleared : ClearStep → Nat → Prop
  | .body, i => i = 16
  | .size, i => i = 16 ∨ 18 ≤ i
  | .type, i => i = 16 ∨ 18 ≤ i ∨ (8 ≤ i ∧ i < 12)
  | .flag, i => i = 16 ∨ 18 ≤ i ∨ (8 ≤ i ∧ i < 16)
  | .advance, i => 8 ≤ i

structure ClearedTo (m : Memory) (step : ClearStep) (b : Block) : Prop where
  offset : ∀ i < 8, m (b.hdr Q + i) = UInt8.ofNat (b.offset / 256 ^ i)
  cleared : ∀ i < b.length, step.cleared i → m (b.hdr Q + i) = 0

/-- What is zero at every moment of such a run, by the offset it is reserved as. -/
structure Cleared (s : State) : Prop where
  free : ∀ x, s.writeOffset ≤ x → x < s.readOffset + Q.bytes → s.mem (x % Q.bytes) = 0
  flag : ∀ b ∈ s.log, (s.stage b.offset).settled = false →
    b.offset + 17 < s.readOffset + Q.bytes → s.mem (b.hdr Q + 17) = 0
  unwritten : ∀ b ∈ s.log, b.isPadding Q = false → 0 < s.pendingCount b.offset →
    ∀ i, 18 + b.data.length ≤ i → i < b.length → b.offset + i < s.readOffset + Q.bytes →
      s.mem (b.hdr Q + i) = 0
  clearing : ∀ rd ∈ s.readers, ∀ step hdr total, rd.pc = .clearing step hdr total →
    ∀ b ∈ s.log, rd.absReadOffset = b.finish → ClearedTo Q s.mem step b

section

variable {Q} {s t : State} {b c : Block} {r : Nat} {rd : Reader} {m m' : Memory}

/-! ### Places in the ring -/

theorem Block.Shape.addr (hb : b.Shape Q) {i : Nat} (hi : i < b.length) :
    (b.offset + i) % Q.bytes = b.hdr Q + i := by
  have hfits := hb.fits
  have hmod := mod_eq_of_mem (s := b.offset) (n := b.length) hfits (Nat.le_add_right _ i)
    (by omega)
  rw [hmod, Nat.add_sub_cancel_left]
  rfl

/-- A step inside a block of the window keeps the rest of the window. -/
theorem Block.Frame.at_outside (hframe : b.Frame Q m m') {R x : Nat} (hlo : R ≤ b.offset)
    (hhi : b.finish ≤ R + Q.bytes) (hx : R ≤ x) (hx' : x < R + Q.bytes)
    (hout : x < b.offset ∨ b.finish ≤ x) : m' (x % Q.bytes) = m (x % Q.bytes) := by
  have hQ := Q.ge_64
  apply hframe _ (Nat.mod_lt _ (by omega))
  simp only [Block.finish] at hhi hout
  rcases hout with hbelow | habove
  · have := Tiling.ring_disjoint (s := x) (n := 1) (t := b.offset) (k := b.length) hx hbelow hhi
    change x % Q.bytes + 1 ≤ b.hdr Q ∨ b.hdr Q + b.length ≤ x % Q.bytes at this
    omega
  · have := Tiling.ring_disjoint (s := b.offset) (n := b.length) (t := x) (k := 1) hlo habove hx'
    change b.hdr Q + b.length ≤ x % Q.bytes ∨ x % Q.bytes + 1 ≤ b.hdr Q at this
    omega

theorem ClearedTo.congr {step : ClearStep} (hc : ClearedTo Q m step c) (hlen : 18 ≤ c.length)
    (hsame : ∀ i < c.length, m' (c.hdr Q + i) = m (c.hdr Q + i)) : ClearedTo Q m' step c := by
  refine ⟨?_, ?_⟩
  · intro i hi
    rw [hsame i (by omega)]
    exact hc.offset i hi
  · intro i hi hcleared
    rw [hsame i hi]
    exact hc.cleared i hi hcleared

/-- The block a clearing reader clears. -/
theorem Inv.clears_of_finish (h : Inv Q s) (hrd : rd ∈ s.readers) {step : ClearStep}
    {hdr total : Nat} (hpc : rd.pc = .clearing step hdr total) (hb : b ∈ s.log)
    (hpos : rd.absReadOffset = b.finish) : Clears Q s rd step hdr total b := by
  obtain ⟨c, hc⟩ := (h.reader rd hrd).clearing step hdr total hpc
  have heq : c = b := h.eq_of_finish_eq hc.mem_log hb (hc.passed.symm.trans hpos)
  rwa [heq] at hc

theorem Inv.eq_of_mem_range (h : Inv Q s) (hb : b ∈ s.log) (hc : c ∈ s.log) {p : Nat}
    (hbl : b.offset ≤ p) (hbr : p < b.finish) (hcl : c.offset ≤ p) (hcr : p < c.finish) :
    b = c := by
  simp only [Block.finish] at hbr hcr
  rcases h.tiles.disjoint hb hc with hd | hd | hd
  · omega
  · omega
  · exact hd

/-! ### Steps inside one block -/

theorem Cleared.of_frame (hz : Cleared Q s) (h : Inv Q s) (h' : Inv Q t) (hlog : t.log = s.log)
    (hread : t.readOffset = s.readOffset) (hb : b ∈ s.log) (hlive : s.readOffset ≤ b.offset)
    (hwindow : b.finish ≤ s.readOffset + Q.bytes) (hframe : b.Frame Q s.mem t.mem)
    (hunsettled : ∀ c ∈ s.log, (t.stage c.offset).settled = false →
      (s.stage c.offset).settled = false)
    (hpending : ∀ c ∈ s.log, 0 < t.pendingCount c.offset → 0 < s.pendingCount c.offset)
    (hflag : (t.stage b.offset).settled = false → t.mem (b.hdr Q + 17) = 0)
    (hunwritten : b.isPadding Q = false → 0 < t.pendingCount b.offset →
      ∀ i, 18 + b.data.length ≤ i → i < b.length → t.mem (b.hdr Q + i) = 0)
    (hclearing : ∀ rd ∈ t.readers, ∀ step hdr total, rd.pc = .clearing step hdr total →
      (rd ∈ s.readers ∧ rd.absReadOffset ≠ b.finish) ∨
      (rd.absReadOffset = b.finish ∧ ClearedTo Q t.mem step b)) : Cleared Q t := by
  have hwrite := h.writeOffset_eq h' hlog
  -- a place of another block in the window is not touched
  have hother : ∀ c ∈ s.log, c ≠ b → s.readOffset ≤ c.offset → ∀ i < c.length,
      c.offset + i < s.readOffset + Q.bytes → t.mem (c.hdr Q + i) = s.mem (c.hdr Q + i) := by
    intro c hc hne hcl i hi hin
    rw [← (h.shape c hc).addr hi]
    refine hframe.at_outside hlive hwindow (by omega) hin ?_
    simp only [Block.finish]
    rcases h.tiles.disjoint hb hc with hd | hd | hd
    · exact Or.inr (by omega)
    · exact Or.inl (by omega)
    · exact absurd hd.symm hne
  refine ⟨?_, ?_, ?_, ?_⟩
  · intro x hx hin
    rw [hwrite] at hx
    rw [hread] at hin
    have hfin := h.finish_le hb
    have hmark := h.mark.le h.tiles
    rw [hframe.at_outside hlive hwindow (by omega) hin (Or.inr (by omega))]
    exact hz.free x hx hin
  · intro c hc hst hin
    rw [hlog] at hc
    rw [hread] at hin
    by_cases hne : c = b
    · subst hne
      exact hflag hst
    · have hst' := hunsettled c hc hst
      have hlen := (h.shape c hc).length_ge
      rw [hother c hc hne (h.live_of_unsettled hc hst').1 17 (by omega) hin]
      exact hz.flag c hc hst' hin
  · intro c hc hpad hpos i hlo hhi hin
    rw [hlog] at hc
    rw [hread] at hin
    by_cases hne : c = b
    · subst hne
      exact hunwritten hpad hpos i hlo hhi
    · have hpos' := hpending c hc hpos
      obtain ⟨rd, hrd, hp⟩ := State.pendingCount_pos_iff.mp hpos'
      rw [hother c hc hne (h.owed rd hrd c hc hp) i hhi hin]
      exact hz.unwritten c hc hpad hpos' i hlo hhi hin
  · intro rd hrd step hdr total hpc c hc hpos
    rw [hlog] at hc
    rcases hclearing rd hrd step hdr total hpc with ⟨hold, hne⟩ | ⟨hthis, hcleared⟩
    · have hclear := h.clears_of_finish hold hpc hc hpos
      have hcw := h.window_of_settled hc hclear.settled
      have hcb : c ≠ b := fun heq => hne (heq ▸ hpos)
      refine (hz.clearing rd hold step hdr total hpc c hc hpos).congr
        (h.shape c hc).length_ge ?_
      intro i hi
      simp only [Block.finish] at hcw
      exact hother c hc hcb hclear.live i hi (by omega)
    · have heq : c = b := h.eq_of_finish_eq hc hb (hpos.symm.trans hthis)
      subst heq
      exact hcleared

/-- A step that leaves the ring alone. -/
theorem Cleared.of_same_mem (hz : Cleared Q s) (h : Inv Q s) (h' : Inv Q t)
    (hlog : t.log = s.log) (hread : t.readOffset = s.readOffset) (hmem : t.mem = s.mem)
    (hunsettled : ∀ c ∈ s.log, (t.stage c.offset).settled = false →
      (s.stage c.offset).settled = false)
    (hpending : ∀ c ∈ s.log, 0 < t.pendingCount c.offset → 0 < s.pendingCount c.offset)
    (hclearing : ∀ rd ∈ t.readers, rd.isClearing → rd ∈ s.readers) : Cleared Q t := by
  have hwrite := h.writeOffset_eq h' hlog
  refine ⟨?_, ?_, ?_, ?_⟩
  · rw [hwrite, hread, hmem]
    exact hz.free
  · intro c hc hst hin
    rw [hlog] at hc
    rw [hread] at hin
    rw [hmem]
    exact hz.flag c hc (hunsettled c hc hst) hin
  · intro c hc hpad hpos i hlo hhi hin
    rw [hlog] at hc
    rw [hread] at hin
    rw [hmem]
    exact hz.unwritten c hc hpad (hpending c hc hpos) i hlo hhi hin
  · intro rd hrd step hdr total hpc c hc hpos
    rw [hlog] at hc
    rw [hmem]
    exact hz.clearing rd (hclearing rd hrd ⟨step, hdr, total, hpc⟩) step hdr total hpc c hc hpos

theorem Cleared.init : Cleared Q State.init := by
  refine ⟨fun _ _ _ => rfl, ?_, ?_, ?_⟩ <;> simp [State.init]

/-! ### One step -/

theorem Cleared.reserve (hz : Cleared Q s) (h : Inv Q s) {size : Nat} {data : List UInt8}
    (h' : Inv Q (reserve Q s size data)) : Cleared Q (reserve Q s size data) := by
  generalize hnew : newBlock Q s size data = new
  have hlog : (MockExchange.reserve Q s size data).log = s.log ++ [new] := by
    rw [reserve_log, hnew]
  have hmem : new ∈ (MockExchange.reserve Q s size data).log := by simp [hlog]
  have hstart : new.offset = s.writeOffset := by subst hnew; rfl
  have hshape := h'.shape new hmem
  have hlen := hshape.length_ge
  have hwrite : (MockExchange.reserve Q s size data).writeOffset = new.finish := by
    have htiles := h'.tiles
    rw [hlog] at htiles
    have hend := htiles.end_unique (h.tiles.append hstart (by omega))
    rw [hend, Block.finish, hstart]
  -- the new block starts where everything is free
  have hfree : ∀ i < new.length, new.offset + i < s.readOffset + Q.bytes →
      s.mem (new.hdr Q + i) = 0 := by
    intro i hi hin
    rw [← hshape.addr hi]
    exact hz.free _ (by omega) hin
  refine ⟨?_, ?_, ?_, ?_⟩
  · intro x hx hin
    rw [hwrite] at hx
    simp only [Block.finish] at hx
    exact hz.free x (by omega) hin
  · intro c hc hst hin
    rw [hlog, List.mem_append, List.mem_singleton] at hc
    rcases hc with hold | rfl
    · have hstage : (MockExchange.reserve Q s size data).stage c.offset = s.stage c.offset :=
        Function.update_of_ne (Nat.ne_of_lt (h.offset_lt hold)) _ _
      rw [hstage] at hst
      exact hz.flag c hold hst hin
    · exact hfree 17 (by omega) hin
  · intro c hc hpad hpos i hlo hhi hin
    rw [hlog, List.mem_append, List.mem_singleton] at hc
    rcases hc with hold | rfl
    · exact hz.unwritten c hold hpad hpos i hlo hhi hin
    · exact hfree i hhi hin
  · intro rd hrd step hdr total hpc c hc hpos
    rw [hlog, List.mem_append, List.mem_singleton] at hc
    rcases hc with hold | rfl
    · exact hz.clearing rd hrd step hdr total hpc c hold hpos
    · have hle := (h.reader rd hrd).boundary.le h.tiles
      simp only [Block.finish] at hpos
      omega

/-- A writer's step on its own block. -/
theorem Cleared.write (hz : Cleared Q s) (h : Inv Q s) (hb : b ∈ s.log)
    (hunsettled : (s.stage b.offset).settled = false) (hadmitted : s.stage b.offset ≠ .waiting)
    {stage' : Stage} {asserts : Bool} (hframe : b.Frame Q s.mem m')
    (ht : t = { s with
      mem := m', stage := Function.update s.stage b.offset stage', assertsHold := asserts })
    (h' : Inv Q t) (hflag : stage'.settled = false → m' (b.hdr Q + 17) = s.mem (b.hdr Q + 17))
    (hrest : b.isPadding Q = false → ∀ i, 18 + b.data.length ≤ i → i < b.length →
      m' (b.hdr Q + i) = s.mem (b.hdr Q + i)) : Cleared Q t := by
  have hlive := h.live_of_unsettled hb hunsettled
  have hwindow := h.window b hb hadmitted
  have hlen := (h.shape b hb).length_ge
  simp only [Block.finish] at hwindow
  subst ht
  refine hz.of_frame h h' rfl rfl hb hlive.1 (by simpa [Block.finish] using hwindow) hframe
    ?_ (fun _ _ hpos => hpos) ?_ ?_ ?_
  · intro c _ hst
    by_cases heq : c.offset = b.offset
    · rw [heq]
      exact hunsettled
    · have hst' : (Function.update s.stage b.offset stage' c.offset).settled = false := hst
      rwa [Function.update_of_ne heq] at hst'
  · intro hst
    have hst' : (Function.update s.stage b.offset stage' b.offset).settled = false := hst
    rw [Function.update_self] at hst'
    exact (hflag hst').trans (hz.flag b hb hunsettled (by omega))
  · intro hpad hpos i hlo hhi
    exact (hrest hpad i hlo hhi).trans (hz.unwritten b hb hpad hpos i hlo hhi (by omega))
  · intro rd hrd step hdr total hpc
    refine Or.inl ⟨hrd, ?_⟩
    intro hpos
    have hsettled := (h.clears_of_finish hrd hpc hb hpos).settled
    rw [hunsettled] at hsettled
    cases hsettled

theorem Cleared.storeHeader (hz : Cleared Q s) (h : Inv Q s) (hb : b ∈ s.log)
    (hwriting : (s.stage b.offset).isWritingHeader = true) (h' : Inv Q (storeHeader Q s b)) :
    Cleared Q (storeHeader Q s b) := by
  have hunsettled : (s.stage b.offset).settled = false := by
    cases hstage : s.stage b.offset <;> simp [hstage, Stage.isWritingHeader] at hwriting <;> rfl
  have hadmitted : s.stage b.offset ≠ .waiting := by
    intro hwaiting
    rw [hwaiting] at hwriting
    cases hwriting
  have hlen := (h.shape b hb).length_ge
  obtain ⟨stage', m', heq, -, -, hout⟩ := storeHeader_eq (Q := Q) hwriting
  rw [heq] at h' ⊢
  exact hz.write h hb hunsettled hadmitted (.of_sameOutside hout (by omega) (by omega)) rfl h'
    (fun _ => hout _ (by omega)) (fun _ i _ _ => hout _ (by omega))

theorem Cleared.finishSkip (hz : Cleared Q s) (h : Inv Q s) (hb : s.AtStage b .claimed)
    (hpad : b.isPadding Q = true) (h' : Inv Q (finishSkip Q s b)) :
    Cleared Q (finishSkip Q s b) := by
  refine hz.write h hb.1 (by rw [hb.2]; rfl) (by rw [hb.2]; decide)
    (finishSkip_mem_frame (h.shape b hb.1) hpad) rfl h' ?_ ?_
  · intro hst
    cases hst
  · intro hpad'
    rw [hpad] at hpad'
    cases hpad'

theorem Cleared.writeToBuffer (hz : Cleared Q s) (h : Inv Q s) (hb : s.AtStage b .claimed)
    (hpad : b.isPadding Q = false) (h' : Inv Q (writeToBuffer Q s b)) :
    Cleared Q (writeToBuffer Q s b) := by
  refine hz.write h hb.1 (by rw [hb.2]; rfl) (by rw [hb.2]; decide)
    (writeToBuffer_mem_frame (h.shape b hb.1) hpad) rfl h' ?_ ?_
  · intro hst
    cases hst
  · intro _ i hlo _
    have hwrite := Memory.write_sameOutside (m := s.mem) (a := b.hdr Q + sizeofMessageHeader)
      b.data
    have hflag := setCommitFlag_sameOutside
      (s.mem.write (b.hdr Q + sizeofMessageHeader) b.data) (b.hdr Q) .readyForConsumer
    simp only [sizeofMessageHeader] at hwrite hflag ⊢
    exact (hflag _ (by omega)).trans (hwrite _ (by omega))

theorem Cleared.fetchSub (hz : Cleared Q s) (h : Inv Q s) (hrd : s.readers[r]? = some rd)
    {hdr : Nat} (hb : Owns Q s rd hdr b) (h' : Inv Q (fetchSub Q s r rd hdr)) :
    Cleared Q (fetchSub Q s r rd hdr) := by
  have hmem := List.mem_of_getElem? hrd
  have hheader := h.header hmem hb.mem_log hb.settled hb.pending
  have hwindow := h.window_of_settled hb.mem_log hb.settled
  have hlen := (h.shape b hb.mem_log).length_ge
  rw [h.fetchSub_eq hrd hb] at h' ⊢
  have hout := setNumReaders_sameOutside s.mem (b.hdr Q)
    (MessageHeader.numReaders s.mem (b.hdr Q) - 1)
  have hpassed := h.pendingCount_passed hrd hb (decide (s.pendingCount b.offset ≤ 1))
  refine hz.of_frame h h' rfl rfl hb.mem_log hheader.live hwindow
    (.of_sameOutside hout (by omega) (by omega)) (fun _ _ hst => hst) ?_ ?_ ?_ ?_
  · intro c hc hpos
    by_cases hne : c = b
    · rw [hne]
      exact hheader.pending_pos
    · exact (h.pendingCount_passed_of_ne hrd hb _ hc hne) ▸ hpos
  · intro hst
    have hsettled := hb.settled
    rw [show s.stage b.offset = _ from rfl, hst] at hsettled
    cases hsettled
  · intro hpad _ i hlo hhi
    simp only [Block.finish] at hwindow
    exact (hout _ (by omega)).trans
      (hz.unwritten b hb.mem_log hpad hheader.pending_pos i hlo hhi (by omega))
  · intro x hx step hdr' total hpc
    rcases List.mem_or_eq_of_mem_set hx with hold | rfl
    · refine Or.inl ⟨hold, ?_⟩
      intro hpos
      have hnone := (h.clears_of_finish hold hpc hb.mem_log hpos).none_pending
      have := hheader.pending_pos
      omega
    · refine Or.inr ⟨rfl, ?_⟩
      have hnone := (h'.clears_of_finish hx hpc hb.mem_log rfl).none_pending
      have hbody : step = .body := by
        simp only [Reader.passed, Reader.afterRelease] at hpc
        split at hpc
        · cases hpc
          rfl
        · split at hpc <;> cases hpc
      subst hbody
      refine ⟨?_, ?_⟩
      · intro i hi
        exact (hout _ (by omega)).trans (Memory.apply_of_load hheader.absOffset hi)
      · rintro i - rfl
        have hcount := (h'.block b hb.mem_log hheader.live).numReaders
          (Stage.rank_of_settled hb.settled ▸ by decide)
        rw [hnone] at hcount
        exact UInt8.toNat_inj.mp hcount

/-- A clearing step before the addition to `read_offset`. -/
theorem Cleared.clearFrame (hz : Cleared Q s) (h : Inv Q s) (hrd : s.readers[r]? = some rd)
    {step : ClearStep} {hdr total : Nat} (hpc : rd.pc = .clearing step hdr total)
    (hb : Clears Q s rd step hdr total b) {step' : ClearStep} {lo n : Nat}
    (hout : Memory.SameOutside s.mem m' (b.hdr Q + lo) n) (hlo : 8 ≤ lo)
    (hhi : lo + n ≤ b.length) (hset : ∀ i < n, m' (b.hdr Q + lo + i) = 0)
    (hcleared : ∀ i, step'.cleared i → step.cleared i ∨ (lo ≤ i ∧ i < lo + n) ∨ b.length ≤ i)
    (ht : t = { s with
      mem := m', readers := s.readers.set r { rd with pc := .clearing step' hdr total } })
    (h' : Inv Q t) : Cleared Q t := by
  have hmem := List.mem_of_getElem? hrd
  have hwindow := h.window_of_settled hb.mem_log hb.settled
  have hlen := (h.shape b hb.mem_log).length_ge
  have hold := hz.clearing rd hmem step hdr total hpc b hb.mem_log hb.passed
  subst ht
  have hpending : ∀ c, (s.readers.set r { rd with pc := .clearing step' hdr total }).countP
      (·.pending c) = s.pendingCount c :=
    State.pendingCount_set hrd (.of_pc _ rd.received)
  refine hz.of_frame h h' rfl rfl hb.mem_log hb.live hwindow
    (.of_sameOutside hout (by omega) (Or.inl (by omega))) (fun _ _ hst => hst) ?_ ?_ ?_ ?_
  · intro c _ hpos
    exact (hpending c.offset) ▸ hpos
  · intro hst
    have hsettled := hb.settled
    rw [show s.stage b.offset = _ from rfl, hst] at hsettled
    cases hsettled
  · intro _ hpos
    have hnone := hb.none_pending
    rw [← hpending] at hnone
    exact absurd hnone (Nat.pos_iff_ne_zero.mp hpos)
  · intro x hx step'' hdr' total' hpc'
    obtain ⟨j, hj⟩ := List.mem_iff_getElem?.mp hx
    rcases getElem?_set_cases hj with ⟨-, rfl⟩ | ⟨hne, hj'⟩
    · cases hpc'
      refine Or.inr ⟨hb.passed, ?_, ?_⟩
      · intro i hi
        exact (hout _ (by omega)).trans (hold.offset i hi)
      · intro i hi hc
        rcases hcleared i hc with hbefore | hnow | hbeyond
        · by_cases hin : lo ≤ i ∧ i < lo + n
          · have hzero := hset (i - lo) (by omega)
            rwa [Nat.add_assoc, Nat.add_sub_cancel' hin.1] at hzero
          · exact (hout _ (by omega)).trans (hold.cleared i hi hbefore)
        · have hzero := hset (i - lo) (by omega)
          rwa [Nat.add_assoc, Nat.add_sub_cancel' hnow.1] at hzero
        · omega
    · refine Or.inl ⟨List.mem_of_getElem? hj', ?_⟩
      intro hpos
      exact hne (h.one_clears j r x rd hj' hrd ⟨_, _, _, hpc'⟩ ⟨_, _, _, hpc⟩
        (hpos.trans hb.passed.symm))

theorem Cleared.clearBlock (hz : Cleared Q s) (h : Inv Q s) (hrd : s.readers[r]? = some rd)
    {step : ClearStep} {hdr total : Nat} (hpc : rd.pc = .clearing step hdr total)
    (hb : Clears Q s rd step hdr total b) (hstep : step ≠ .advance)
    (h' : Inv Q (clearStep s r rd step hdr total)) :
    Cleared Q (clearStep s r rd step hdr total) := by
  have hlen := (h.shape b hb.mem_log).length_ge
  have hhdr := hb.hdr_eq
  have htotal := hb.total_eq
  subst hhdr htotal
  cases step with
  | body =>
    have hsize := hb.memory.size rfl
    have hout := Memory.fill_sameOutside (m := s.mem) (a := b.hdr Q + sizeofMessageHeader)
      (n := messageSize s.mem (b.hdr Q)) 0
    refine hz.clearFrame h hrd hpc hb hout (by decide) (by simp only [sizeofMessageHeader]; omega)
      ?_ ?_ rfl h'
    · intro i hi
      exact Memory.fill_apply_mem (Nat.le_add_right _ _) (by omega)
    · rintro i (rfl | hi)
      · exact Or.inl rfl
      · simp only [sizeofMessageHeader]
        omega
  | size =>
    have hout := setMessageSize_sameOutside s.mem (b.hdr Q) 0
    refine hz.clearFrame h hrd hpc hb hout (by decide) (by omega) ?_ ?_ rfl h'
    · intro i hi
      exact Memory.store_zero_apply (Nat.le_add_right _ _) (by omega)
    · rintro i (rfl | hi | hi)
      · exact Or.inl (Or.inl rfl)
      · exact Or.inl (Or.inr hi)
      · exact Or.inr (Or.inl hi)
  | type =>
    have hout := setType_sameOutside s.mem (b.hdr Q) .normal
    refine hz.clearFrame h hrd hpc hb hout (by decide) (by omega) ?_ ?_ rfl h'
    · intro i hi
      exact Memory.store_zero_apply (Nat.le_add_right _ _) (by omega)
    · simp only [ClearStep.cleared]
      omega
  | flag =>
    have hout := setCommitFlag_sameOutside s.mem (b.hdr Q) .notReady
    refine hz.clearFrame h hrd hpc hb hout (by decide) (by omega) ?_ ?_ rfl h'
    · intro i hi
      exact Memory.fill_apply_mem (Nat.le_add_right _ _) (by omega)
    · simp only [ClearStep.cleared]
      omega
  | advance => exact absurd rfl hstep

/-- The addition to `read_offset` frees the block, and with it what is left of
its `abs_offset`. -/
theorem Cleared.advance (hz : Cleared Q s) (h : Inv Q s) (hrd : s.readers[r]? = some rd)
    {hdr total : Nat} (hpc : rd.pc = .clearing .advance hdr total)
    (hb : Clears Q s rd .advance hdr total b) (hmark : s.readOffset = b.offset)
    (hclean : LeavesNoTrace Q s (.releaseStep r))
    (h' : Inv Q (clearStep s r rd .advance hdr total)) :
    Cleared Q (clearStep s r rd .advance hdr total) := by
  have hmem := List.mem_of_getElem? hrd
  have hwindow := h.window_of_settled hb.mem_log hb.settled
  have hshape := h.shape b hb.mem_log
  have hlen := hshape.length_ge
  have hold := hz.clearing rd hmem .advance hdr total hpc b hb.mem_log hb.passed
  have hread : (MockExchange.clearStep s r rd .advance hdr total).readOffset =
      s.readOffset + b.length := by
    change add64 s.readOffset total = _
    rw [hb.total_eq, hmark, h.add64_length hb.mem_log]
    rfl
  have hpending : ∀ c, (MockExchange.clearStep s r rd .advance hdr total).pendingCount c =
      s.pendingCount c :=
    State.pendingCount_set hrd (.of_pc _ rd.received)
  have htrace : ∀ i < 8, UInt8.ofNat (s.readOffset / 256 ^ i) ≠ 0 →
      ∃ c ∈ s.log, c.Overwrites Q (s.readOffset + i + Q.bytes) := by
    have hrdclean := hclean rd hrd
    simp only [hpc] at hrdclean
    exact hrdclean
  -- what comes into the window is zero, or lies under a block that overwrites it
  have hnew : ∀ x, s.readOffset + Q.bytes ≤ x → x < s.readOffset + b.length + Q.bytes →
      s.mem (x % Q.bytes) = 0 ∨ ∃ c ∈ s.log, c.Overwrites Q x := by
    intro x hlo hhi
    obtain ⟨i, rfl⟩ := Nat.exists_eq_add_of_le hlo
    have hplace : (s.readOffset + Q.bytes + i) % Q.bytes = b.hdr Q + i := by
      rw [Nat.add_right_comm, Nat.add_mod_right, hmark]
      exact hshape.addr (by omega)
    rw [hplace]
    by_cases hi : i < 8
    · by_cases hbyte : UInt8.ofNat (s.readOffset / 256 ^ i) = 0
      · rw [hmark] at hbyte
        exact Or.inl ((hold.offset i hi).trans hbyte)
      · have hover := htrace i hi hbyte
        rw [Nat.add_right_comm] at hover
        exact Or.inr hover
    · exact Or.inl (hold.cleared i (by omega) (by simp only [ClearStep.cleared]; omega))
  refine ⟨?_, ?_, ?_, ?_⟩
  · intro x hx hin
    rw [hread] at hin
    rw [h.writeOffset_eq h' rfl] at hx
    rcases Nat.lt_or_ge x (s.readOffset + Q.bytes) with hbefore | hafter
    · exact hz.free x hx hbefore
    · rcases hnew x hafter hin with hzero | ⟨c, hc, hover⟩
      · exact hzero
      · have hfin := h.finish_le hc
        have := hover.2.1
        omega
  · intro c hc hst hin
    rw [hread] at hin
    rcases Nat.lt_or_ge (c.offset + 17) (s.readOffset + Q.bytes) with hbefore | hafter
    · exact hz.flag c hc hst hbefore
    · have hclen := (h.shape c hc).length_ge
      rcases hnew _ hafter hin with hzero | ⟨d, hd, hlo, hhi, hne, -⟩
      · rwa [(h.shape c hc).addr (by omega)] at hzero
      · have heq := h.eq_of_mem_range hc hd (p := c.offset + 17) (by omega)
          (by simp only [Block.finish]; omega) hlo hhi
        rw [heq] at hne
        exact absurd rfl hne
  · intro c hc hpad hpos i hlo hhi hin
    rw [hread] at hin
    rw [hpending] at hpos
    rcases Nat.lt_or_ge (c.offset + i) (s.readOffset + Q.bytes) with hbefore | hafter
    · exact hz.unwritten c hc hpad hpos i hlo hhi hbefore
    · rcases hnew _ hafter hin with hzero | ⟨d, hd, hdlo, hdhi, -, hdata⟩
      · rwa [(h.shape c hc).addr hhi] at hzero
      · have heq := h.eq_of_mem_range hc hd (p := c.offset + i) (by omega)
          (by simp only [Block.finish]; omega) hdlo hdhi
        rw [← heq] at hdata
        have := hdata hpad
        omega
  · intro x hx step hdr' total' hpc' c hc hpos
    rcases List.mem_or_eq_of_mem_set hx with hin | rfl
    · exact hz.clearing x hin step hdr' total' hpc' c hc hpos
    · simp only [Reader.afterRelease] at hpc'
      split at hpc' <;> cases hpc'

/-- A step of a reader outside `release_buffer`. -/
theorem Cleared.move (hz : Cleared Q s) (h : Inv Q s) (h' : Inv Q t)
    (hrd : s.readers[r]? = some rd) {rd' : Reader} (hsame : rd.SameProgress rd')
    (hnot : ¬ rd'.isClearing) (hshared : s.SameShared t)
    (hreaders : t.readers = s.readers.set r rd') : Cleared Q t := by
  refine hz.of_same_mem h h' hshared.log hshared.readOffset hshared.mem ?_ ?_ ?_
  · intro c _ hst
    rwa [hshared.stage] at hst
  · intro c _ hpos
    rw [State.pendingCount, hreaders, State.pendingCount_set hrd hsame] at hpos
    exact hpos
  · intro x hx hclearing
    rw [hreaders] at hx
    rcases List.mem_or_eq_of_mem_set hx with hold | rfl
    · exact hold
    · exact absurd hclearing hnot

theorem Reader.not_isClearing {pc : ReaderPc} (h : pc.isReleasing = false ∨ ∃ hdr,
    pc = .releaseCalled hdr) (received : List (List UInt8)) :
    ¬ ({ rd with pc := pc, received := received } : Reader).isClearing := by
  rintro ⟨step, hdr, total, hpc⟩
  have hpc' : pc = .clearing step hdr total := hpc
  subst hpc'
  rcases h with h | ⟨hdr', h⟩
  · cases h
  · cases h

theorem Cleared.join (hz : Cleared Q s) (h : Inv Q s) (h' : Inv Q (join s)) :
    Cleared Q (join s) := by
  refine hz.of_same_mem h h' rfl rfl rfl (fun _ _ hst => hst) ?_ ?_
  · intro c hc hpos
    rwa [h.pendingCount_join hc] at hpos
  · intro x hx hclearing
    rw [join_readers, List.mem_append, List.mem_singleton] at hx
    rcases hx with hold | rfl
    · exact hold
    · obtain ⟨step, hdr, total, hpc⟩ := hclearing
      cases hpc

theorem Cleared.pollHeader (hz : Cleared Q s) (h : Inv Q s) (hrd : s.readers[r]? = some rd)
    (h' : Inv Q (pollHeader Q s r rd)) : Cleared Q (pollHeader Q s r rd) := by
  simp only [MockExchange.pollHeader] at h' ⊢
  cases hout : pollOutcome Q s.mem rd.absReadOffset with
  | nullopt => exact hz
  | skipPadding =>
    simp only [hout] at h'
    exact hz.move h h' hrd (.of_pc (.releaseCalled _) rd.received)
      (Reader.not_isClearing (Or.inr ⟨_, rfl⟩) _) ⟨rfl, rfl, rfl, rfl⟩ rfl
  | skipAborted =>
    simp only [hout] at h'
    exact hz.move h h' hrd (.of_pc (.releaseCalled _) rd.received)
      (Reader.not_isClearing (Or.inr ⟨_, rfl⟩) _) ⟨rfl, rfl, rfl, rfl⟩ rfl
  | wrapper =>
    simp only [hout] at h'
    exact hz.move h h' hrd (.of_pc (.holding _) _)
      (Reader.not_isClearing (Or.inl rfl) _) ⟨rfl, rfl, rfl, rfl⟩ rfl

/-- **Every step keeps the free bytes zero.** -/
theorem Cleared.step (hz : Cleared Q s) (h : Inv Q s) (h' : Inv Q t) (hstay : s.Staying)
    {a : Action} (hrun : ClearingRun Q s a) (hclean : LeavesNoTrace Q s a)
    (htaken : Taken Q s a t) : Cleared Q t := by
  cases htaken with
  | join => exact hz.join h h'
  | reserve => exact hz.reserve h h'
  | @loadReadOffset b hb =>
    simp only [MockExchange.loadReadOffset] at h' ⊢
    split
    · exact hz
    · rename_i hwait
      rw [if_neg hwait] at h'
      refine hz.of_same_mem h h' rfl rfl rfl ?_ (fun _ _ hpos => hpos) (fun _ hx _ => hx)
      intro c _ hst
      have hst' : (Function.update s.stage b.offset .admitted c.offset).settled = false := hst
      by_cases heq : c.offset = b.offset
      · rw [heq, hb.2]
        rfl
      · rwa [Function.update_of_ne heq] at hst'
  | storeHeader hb hst => exact hz.storeHeader h hb hst h'
  | finishSkip hb hpad => exact hz.finishSkip h hb hpad h'
  | writeToBuffer hb hpad => exact hz.writeToBuffer h hb hpad h'
  | abortBuffer => exact hrun.2.elim
  | poll hrd => exact hz.pollHeader h hrd h'
  | loadCommitFlag => exact hrun.1.elim
  | loadAbsOffset => exact hrun.1.elim
  | loadSizeAndType => exact hrun.1.elim
  | @releaseHeld r hdr rd hrd hpc =>
    exact hz.move h h' hrd (.of_pc (.releaseCalled hdr) rd.received)
      (Reader.not_isClearing (Or.inr ⟨_, rfl⟩) _) ⟨rfl, rfl, rfl, rfl⟩ rfl
  | releaseNext hrd hpc => exact absurd hpc (hrun.1 _ hrd)
  | fetchSub hrd hpc =>
    obtain ⟨b, hb⟩ := (h.reader _ (List.mem_of_getElem? hrd)).owns _ (Or.inr hpc)
    exact hz.fetchSub h hrd hb h'
  | @clearStep r hdr total rd step hrd hpc =>
    obtain ⟨b, hb⟩ := (h.reader _ (List.mem_of_getElem? hrd)).clearing _ _ _ hpc
    by_cases hadvance : step = .advance
    · subst hadvance
      have hmark := h.mark_eq_of_no_leave hstay hb.mem_log hb.live hb.none_pending
      exact hz.advance h hrd hpc hb hmark hclean h'
    · exact hz.clearBlock h hrd hpc hb hadvance h'
  | leave => exact hrun.1.elim
  | drain => exact hrun.1.elim

end

end MockExchange
