import MockExchange.Wraparound

/-!
# Walking the ring by its headers

A writer decides the length of a block in its CAS loop and stores a message size
in the header, the payload size of a message or the padding up to the ring's
end. A reader gets to the next block by adding that size and a header's to its
offset. Both agree on every block that a reader has still to release.
-/

namespace MockExchange

open ByteMemory Tiling MessageHeader Transition ListUpdate

variable (Q : RingSize)

/-- What a reader finds in the header at its offset. -/
structure Walked where
  position : Nat
  absOffset : Nat
  messageSize : Nat
  type : Nat
deriving DecidableEq, Repr

def nextPosition (m : Memory) (position : Nat) : Nat :=
  add64 position (messageSize m (position % Q.bytes) + sizeofMessageHeader)

/-- `n` headers from `position` on, each reached by `abs_read_offset +=
total_message_len`. -/
def walkHeaders (m : Memory) : Nat → Nat → List Walked
  | 0, _ => []
  | n + 1, position =>
    let hdr := position % Q.bytes
    ⟨position, absOffset m hdr, messageSize m hdr, type m hdr⟩ ::
      walkHeaders m n (nextPosition Q m position)

/-- The header that belongs to a reservation. -/
def Block.walked (b : Block) : Walked where
  position := b.offset
  absOffset := b.offset
  messageSize := b.messageSize Q
  type := (b.type Q).toNat

/-- The reservations from `position` on. -/
def State.reservedFrom (s : State) (position : Nat) : List Block :=
  slice Block.offset s.log position s.writeOffset

/-- Some reader has not passed the block at `off`. -/
def State.Unreleased (s : State) (off : Nat) : Prop :=
  ∃ rd ∈ s.readers, rd.pending off = true

/-- No block starts between `p` and `q`, and one starts at `q` or is about to be
reserved there. -/
def State.NextReservation (s : State) (p q : Nat) : Prop :=
  p < q ∧ Boundary Block.offset s.log s.writeOffset q ∧ ∀ c ∈ s.log, p < c.offset → q ≤ c.offset

/-- The headers in the ring frame the blocks as they were reserved. -/
structure Framed (s : State) : Prop where
  next : ∀ b ∈ s.log, s.Unreleased b.offset → Stage.sizeStored.rank ≤ (s.stage b.offset).rank →
    s.NextReservation b.offset (nextPosition Q s.mem b.offset)
  walk : ∀ b ∈ s.log, s.Unreleased b.offset → ∀ n ≤ (s.reservedFrom b.offset).length,
    (∀ c ∈ (s.reservedFrom b.offset).take n, s.stage c.offset = .committed) →
      walkHeaders Q s.mem n b.offset = ((s.reservedFrom b.offset).take n).map (Block.walked Q)
  unreleased : (∀ rd ∈ s.readers, ¬ rd.isClearing) →
    ∀ b ∈ s.log, s.Unreleased b.offset ↔ s.readOffset ≤ b.offset
  walkUnreleased : (∀ rd ∈ s.readers, ¬ rd.isClearing) →
    ∀ n ≤ (s.reservedFrom s.readOffset).length,
      (∀ c ∈ (s.reservedFrom s.readOffset).take n, s.stage c.offset = .committed) →
        walkHeaders Q s.mem n s.readOffset =
          ((s.reservedFrom s.readOffset).take n).map (Block.walked Q)
  asserts : s.assertsHold = true
  padding : ∀ b ∈ s.log, b.isPadding Q = true → b.hdr Q + sizeofMessageHeader ≤ Q.bytes

/-- Readers join, poll, and release or skip committed blocks; writers reserve,
wait, store and commit. -/
def FramingRun (s : State) : Action → Prop
  | .poll r => ∀ rd ∈ s.readers[r]?,
    pollOutcome Q s.mem rd.absReadOffset ≠ .nullopt → s.CommittedAt rd.absReadOffset
  | .loadCommitFlag r => ∀ rd ∈ s.readers[r]?,
    commitFlag s.mem (rd.absReadOffset % Q.bytes) = CommitFlag.aborted.toByte →
      s.CommittedAt rd.absReadOffset
  | .loadAbsOffset _ => True
  | .loadSizeAndType r => ∀ rd ∈ s.readers[r]?, s.CommittedAt rd.absReadOffset
  | a => ReleasesInOrder Q s a

instance (s : State) (a : Action) : Decidable (FramingRun Q s a) := by
  apply Action.casesOn (motive := fun a => Decidable (FramingRun Q s a)) a <;> intros <;>
    dsimp only [FramingRun] <;> infer_instance

section

variable {Q} {s t : State} {b c : Block} {m : Memory}

theorem FramingRun.sound {a : Action} (hok : FramingRun Q s a) (h : Inv Q s)
    (hstay : s.Staying) : Sound Q s a := by
  cases a with
  | poll r => exact fun rd hrd hout => (hok rd hrd hout).settledAt
  | loadCommitFlag r => exact fun rd hrd hflag => (hok rd hrd hflag).settledAt
  | loadAbsOffset r => trivial
  | loadSizeAndType r => exact fun rd hrd => (hok rd hrd).settledAt
  | _ => exact ReleasesInOrder.sound hok h hstay

theorem invariant_of_framingRun (hreach : Reach (step Q) (FramingRun Q) State.init s) :
    Inv Q s ∧ s.Staying := by
  have hinit : Inv Q State.init ∧ State.init.Staying := by
    constructor
    · exact .init
    · simp [State.Staying, State.init]
  refine hreach.invariant (P := fun s => Inv Q s ∧ s.Staying) hinit ?_
  rintro s a t ⟨h, hstay⟩ hok hstep
  refine ⟨h.step (hok.sound h hstay) hstep, hstay.step (Taken.of_step hstep).change ?_⟩
  rintro r rfl
  exact hok

/-! ### One header -/

/-- The header of `b` in the ring is the one its writer stored. -/
structure HeaderOf (Q : RingSize) (m : Memory) (b : Block) : Prop where
  absOffset : absOffset m (b.hdr Q) = b.offset
  messageSize : messageSize m (b.hdr Q) = b.messageSize Q
  type : type m (b.hdr Q) = (b.type Q).toNat

theorem nextPosition_eq (hb : b.Shape Q) (hlt : b.finish < 2 ^ 64)
    (hsize : messageSize m (b.hdr Q) = b.messageSize Q) : nextPosition Q m b.offset = b.finish := by
  have hlength := hb.messageSize_add
  unfold Block.finish at hlt ⊢
  change add64 b.offset (MessageHeader.messageSize m (b.hdr Q) + 18) = _
  rw [hsize, hlength, add64, Nat.mod_eq_of_lt hlt]

/-- A walk over headers that are in place goes through the blocks in order. -/
theorem walkHeaders_eq {blocks : List Block} {p z : Nat}
    (htiles : Tiles Block.offset Block.length p blocks z) (hz : z < 2 ^ 64) {n : Nat}
    (hn : n ≤ blocks.length)
    (hblocks : ∀ b ∈ blocks.take n, b.Shape Q ∧ HeaderOf Q m b) :
    walkHeaders Q m n p = (blocks.take n).map (Block.walked Q) := by
  induction blocks generalizing p n with
  | nil =>
    rw [Nat.le_zero.mp hn]
    rfl
  | cons b blocks ih =>
    cases n with
    | zero => rfl
    | succ n =>
      obtain ⟨rfl, -, hrest⟩ := htiles
      rw [List.take_succ_cons] at hblocks ⊢
      obtain ⟨hshape, hheader⟩ := hblocks b List.mem_cons_self
      have hfinish : b.finish < 2 ^ 64 := Nat.lt_of_le_of_lt hrest.le hz
      have htail := ih hrest (Nat.le_of_succ_le_succ hn)
        fun c hc => hblocks c (List.mem_cons_of_mem _ hc)
      have hhead : (⟨b.offset, MessageHeader.absOffset m (b.hdr Q),
          MessageHeader.messageSize m (b.hdr Q), MessageHeader.type m (b.hdr Q)⟩ : Walked) =
          b.walked Q := by
        rw [hheader.absOffset, hheader.messageSize, hheader.type]
        rfl
      rw [List.map_cons, ← htail, ← hhead]
      rw [walkHeaders, nextPosition_eq hshape hfinish hheader.messageSize]
      rfl

/-! ### The headers of a queue -/

theorem Inv.headerOf (h : Inv Q s) (hb : b ∈ s.log) (hunreleased : s.Unreleased b.offset)
    (hst : s.stage b.offset = .committed) : HeaderOf Q s.mem b := by
  have hpending := State.pendingCount_pos_iff.mpr hunreleased
  obtain ⟨rd, hrd, hp⟩ := hunreleased
  have hmem := h.block b hb (h.owed rd hrd b hb hp)
  rw [hst] at hmem
  exact ⟨hmem.absOffset (by decide) hpending, hmem.messageSize (by decide) hpending,
    hmem.type (by decide) hpending⟩

/-- A reader that owes a block owes every later one. -/
theorem State.Staying.unreleased (hstay : s.Staying) {p q : Nat} (hle : p ≤ q)
    (hp : s.Unreleased p) : s.Unreleased q := by
  obtain ⟨rd, hrd, hpending⟩ := hp
  refine ⟨rd, hrd, ?_⟩
  rw [Reader.pending_iff] at hpending ⊢
  refine ⟨Nat.le_trans hpending.1 hle, ?_⟩
  rw [hstay rd hrd]
  simp

theorem Inv.nextReservation (h : Inv Q s) (hb : b ∈ s.log) :
    s.NextReservation b.offset b.finish := by
  refine ⟨?_, h.tiles.boundary_end hb, ?_⟩
  · have hlength := (h.shape b hb).length_ge
    unfold Block.finish
    omega
  · exact fun c hc hlt => h.finish_le_of_lt hb hc hlt

/-- The walk from a boundary behind which everything is still owed. -/
theorem Inv.walkHeaders_eq (h : Inv Q s) {p : Nat}
    (hp : Boundary Block.offset s.log s.writeOffset p)
    (hunreleased : ∀ c ∈ s.log, p ≤ c.offset → s.Unreleased c.offset) {n : Nat}
    (hn : n ≤ (s.reservedFrom p).length)
    (hcommitted : ∀ c ∈ (s.reservedFrom p).take n, s.stage c.offset = .committed) :
    walkHeaders Q s.mem n p = ((s.reservedFrom p).take n).map (Block.walked Q) := by
  have hlt : s.writeOffset < 2 ^ 64 := Nat.lt_trans h.word.offset_lt (by decide)
  refine MockExchange.walkHeaders_eq (h.tiles.slice_tiles hp) hlt hn ?_
  intro c hc
  obtain ⟨hlog, hle, -⟩ := mem_slice.mp (List.mem_of_mem_take hc)
  exact ⟨h.shape c hlog, h.headerOf hlog (hunreleased c hlog hle) (hcommitted c hc)⟩

/-- While nobody clears, the unreleased blocks are those from `read_offset` on. -/
theorem Inv.unreleased_iff (h : Inv Q s) (hnone : ∀ rd ∈ s.readers, ¬ rd.isClearing)
    (hb : b ∈ s.log) : s.Unreleased b.offset ↔ s.readOffset ≤ b.offset := by
  constructor
  · rintro ⟨rd, hrd, hp⟩
    exact h.owed rd hrd b hb hp
  · intro hle
    by_contra hnot
    have hzero : s.pendingCount b.offset = 0 := by
      by_contra hpos
      exact hnot (State.pendingCount_pos_iff.mp (Nat.pos_of_ne_zero hpos))
    obtain ⟨rd, hrd, hclearing, -⟩ := h.cleared b hb hle hzero
    exact hnone rd hrd hclearing

/-- Headers and reservations agree in every state of such a run. -/
theorem framed (hreach : Reach (step Q) (FramingRun Q) State.init s) : Framed Q s := by
  obtain ⟨h, hstay⟩ := invariant_of_framingRun hreach
  refine
    { next := ?_, walk := ?_, unreleased := ?_, walkUnreleased := ?_, asserts := h.asserts,
      padding := ?_ }
  · intro b hb hunreleased hrank
    have hpending := State.pendingCount_pos_iff.mpr hunreleased
    obtain ⟨rd, hrd, hp⟩ := hunreleased
    have hmem := h.block b hb (h.owed rd hrd b hb hp)
    have hlt : b.finish < 2 ^ 64 := Nat.lt_trans (h.finish_lt hb) (by decide)
    rw [nextPosition_eq (h.shape b hb) hlt (hmem.messageSize hrank hpending)]
    exact h.nextReservation hb
  · intro b hb hunreleased n hn hcommitted
    refine h.walkHeaders_eq (Or.inr ⟨b, hb, rfl⟩) ?_ hn hcommitted
    exact fun c _ hle => hstay.unreleased hle hunreleased
  · exact fun hnone b hb => h.unreleased_iff hnone hb
  · intro hnone n hn hcommitted
    refine h.walkHeaders_eq h.mark ?_ hn hcommitted
    exact fun c hc hle => (h.unreleased_iff hnone hc).mpr hle
  · exact fun b hb _ => (h.shape b hb).room

end

/-- A message of 28 bytes and the skip message behind it. -/
theorem framed_message_and_skip : ∃ s, Framed .smallest s ∧ s.writeOffset = 64 ∧
    walkHeaders .smallest s.mem 2 s.readOffset = [⟨0, 0, 28, 0⟩, ⟨46, 46, 0, 1⟩] := by
  let data : List UInt8 := List.replicate 28 7
  let b : Block := ⟨0, 46, 28, 1, data⟩
  let pad : Block := ⟨46, 18, 28, 1, data⟩
  let labels : List Action :=
    [.join, .reserve 28 data, .loadReadOffset b, .storeHeader b, .storeHeader b, .storeHeader b,
      .storeHeader b, .writeToBuffer b, .poll 0, .reserve 28 data, .loadReadOffset pad,
      .storeHeader pad, .storeHeader pad, .storeHeader pad, .storeHeader pad, .finishSkip pad]
  have hexec : (exec (step .smallest) (FramingRun .smallest) State.init labels).any
      (fun s => decide (s.writeOffset = 64 ∧
        walkHeaders .smallest s.mem 2 s.readOffset = [⟨0, 0, 28, 0⟩, ⟨46, 46, 0, 1⟩])) = true := by
    decide +kernel
  obtain ⟨s, hrun, hs⟩ := exists_run_of_exec hexec
  exact ⟨s, framed ⟨labels, hrun⟩, of_decide_eq_true hs⟩

/-! ### Without limits -/

/-- `FramingRun` without its limits on the joined readers and on the bytes
reserved in all. -/
def FramingUnlimited (s : State) : Action → Prop
  | .join => True
  | .reserve size data => data.length ≤ size ∧ 0 < s.activeReaders
  | a => FramingRun Q s a

instance (s : State) (a : Action) : Decidable (FramingUnlimited Q s a) := by
  apply Action.casesOn (motive := fun a => Decidable (FramingUnlimited Q s a)) a <;> intros <;>
    dsimp only [FramingUnlimited] <;> infer_instance

theorem FramingUnlimited.of_releasesUnlimited {s : State} {a : Action}
    (hok : ReleasesUnlimited s a) : FramingUnlimited Q s a := by
  cases a with
  | join => trivial
  | poll r => exact hok.elim
  | loadCommitFlag r => exact hok.elim
  | loadAbsOffset r => exact hok.elim
  | loadSizeAndType r => exact hok.elim
  | _ => exact hok

/-- With 256 readers the first release clears a block that 255 readers have not
passed. -/
theorem exists_not_framed_readers :
    ∃ s, Reach (step .smallest) (FramingUnlimited .smallest) State.init s ∧
      s.activeReaders = 256 ∧ ¬ Framed .smallest s := by
  let b : Block := ⟨0, 38, 20, 0, []⟩
  let labels : List Action :=
    List.replicate 256 .join ++ [.reserve 20 [], .loadReadOffset b, .storeHeader b,
      .storeHeader b, .storeHeader b, .storeHeader b, .writeToBuffer b, .callRelease 0,
      .releaseStep 0, .releaseStep 0, .releaseStep 0]
  have hexec : (exec (step .smallest) (FramingUnlimited .smallest) State.init labels).any
      (fun s => decide (s.activeReaders = 256 ∧ b ∈ s.log ∧ s.stage 0 = .committed ∧
        (∃ rd ∈ s.readers, rd.pending 0 = true) ∧ s.log.length = 1 ∧ s.writeOffset = 38 ∧
          nextPosition .smallest s.mem 0 = 18)) = true := by
    decide +kernel
  obtain ⟨s, hrun, hs⟩ := exists_run_of_exec hexec
  obtain ⟨hactive, hb, hst, hunreleased, hlen, hwrite, hnext⟩ := of_decide_eq_true hs
  refine ⟨s, ⟨labels, hrun⟩, hactive, ?_⟩
  intro hframed
  obtain ⟨-, hboundary, -⟩ := hframed.next b hb hunreleased (by rw [hst]; decide)
  change Boundary Block.offset s.log s.writeOffset (nextPosition .smallest s.mem 0) at hboundary
  rw [hnext, hwrite] at hboundary
  rcases hboundary with hend | ⟨c, hc, hstart⟩
  · cases hend
  · obtain ⟨c', hlog⟩ := List.length_eq_one_iff.mp hlen
    rw [hlog, List.mem_singleton] at hb hc
    rw [hc, ← hb] at hstart
    cases hstart

/-- The block behind the one that ends at 2^56 starts at 0. -/
theorem exists_not_framed_wraparound :
    ∃ s, Reach (step .smallest) (FramingUnlimited .smallest) State.init s ∧
      s.writeOffset = 0 ∧ ¬ Framed .smallest s := by
  obtain ⟨j, hj⟩ : ∃ j, j + 1 = 2 ^ 51 := ⟨2 ^ 51 - 1, by omega⟩
  obtain ⟨s, rd, hreach, hturn, hword, hlog⟩ := exists_turn (by omega : j ≤ 2 ^ 51)
  rw [Nat.mod_eq_of_lt (by omega)] at hword
  obtain ⟨t, hcommitted, hcommits, hturn', ⟨hmem, hstage⟩, hlog', hword'⟩ :=
    reach_committed (by omega) hturn hreach hword
  have hwrite : t.writeOffset = 0 := by
    rw [show 32 * (j + 1) % 2 ^ 56 = 0 by omega] at hword'
    exact hword'.writeOffset
  have hunreleased : t.Unreleased (lapBlock j).offset := by
    refine ⟨rd, by simp [hturn'.readers], ?_⟩
    rw [Reader.pending_iff, hturn'.position, hturn'.staying]
    exact ⟨Nat.le_refl _, by simp⟩
  refine ⟨t, hcommitted.mono fun _ _ => .of_releasesUnlimited _, hwrite, ?_⟩
  intro hframed
  obtain ⟨-, hboundary, -⟩ := hframed.next _ hmem hunreleased (by rw [hstage]; decide)
  have hfinish : (lapBlock j).finish = 2 ^ 56 := by
    change 32 * j + 32 = _
    omega
  have hsize := hcommits.memory.messageSize (by decide) Nat.one_pos
  rw [nextPosition_eq (lapBlock_shape j) (by rw [hfinish]; decide) hsize, hfinish, hwrite]
    at hboundary
  rcases hboundary with hend | ⟨c, hc, hstart⟩
  · cases hend
  · rw [hlog', List.mem_append, List.mem_singleton] at hc
    rcases hc with hold | rfl
    · have := hlog c hold
      omega
    · change 32 * j = _ at hstart
      omega

/-- While the last reader clears a block, `read_offset` still points at it and
its message size is already zero. -/
theorem exists_not_walked_clearing :
    ∃ s, Reach (step .smallest) (FramingRun .smallest) State.init s ∧
      s.reservedFrom s.readOffset = [⟨0, 20, 2, 1, [7]⟩] ∧ s.stage 0 = .committed ∧
      walkHeaders .smallest s.mem 1 s.readOffset ≠
        ((s.reservedFrom s.readOffset).take 1).map (Block.walked .smallest) := by
  let b : Block := ⟨0, 20, 2, 1, [7]⟩
  let labels : List Action :=
    [.join, .reserve 2 [7], .loadReadOffset b, .storeHeader b, .storeHeader b, .storeHeader b,
      .storeHeader b, .writeToBuffer b, .callRelease 0, .releaseStep 0, .releaseStep 0,
      .releaseStep 0]
  have hexec : (exec (step .smallest) (FramingRun .smallest) State.init labels).any
      (fun s => decide (s.reservedFrom s.readOffset = [b] ∧ s.stage 0 = .committed ∧
        walkHeaders .smallest s.mem 1 s.readOffset ≠
          ((s.reservedFrom s.readOffset).take 1).map (Block.walked .smallest))) = true := by
    decide +kernel
  obtain ⟨s, hrun, hs⟩ := exists_run_of_exec hexec
  exact ⟨s, ⟨labels, hrun⟩, of_decide_eq_true hs⟩

/-- Neither limit can be left out, and a walk from `read_offset` is not promised
while a block is being cleared. -/
theorem not_framed_unlimited :
    (∃ s, Reach (step .smallest) (FramingUnlimited .smallest) State.init s ∧
      s.activeReaders = 256 ∧ ¬ Framed .smallest s) ∧
    (∃ s, Reach (step .smallest) (FramingUnlimited .smallest) State.init s ∧
      s.writeOffset = 0 ∧ ¬ Framed .smallest s) ∧
    ∃ s, Reach (step .smallest) (FramingRun .smallest) State.init s ∧
      s.reservedFrom s.readOffset = [⟨0, 20, 2, 1, [7]⟩] ∧ s.stage 0 = .committed ∧
      walkHeaders .smallest s.mem 1 s.readOffset ≠
        ((s.reservedFrom s.readOffset).take 1).map (Block.walked .smallest) :=
  ⟨exists_not_framed_readers, exists_not_framed_wraparound, exists_not_walked_clearing⟩

end MockExchange
