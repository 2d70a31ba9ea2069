import MockExchange.Lib.ListUpdate
import MockExchange.Queue

/-!
# The queue invariant

`Inv Q s` ties the bytes of the ring to the log of reservations:

* the reservations tile `[0, write_offset)` and the packed word agrees with
  them and with the number of joined readers;
* `read_offset` is the start of a block; whatever a reader still owes lies at or
  behind it, and whatever a writer was admitted to ends at most a ring behind it;
* a block that is live and has readers left carries the header its writer
  stored, and its `num_readers` byte is the number of readers that have not
  passed it;
* a block nobody owes any more is in the hands of the one reader that clears it.

It holds under every interleaving of the atomic steps, as long as readers only
release blocks that were settled and every block counts at least one reader.
-/

namespace MockExchange

open ByteMemory Tiling MessageHeader

/-! ### Readers and blocks -/

namespace Reader

/-- The reader has not passed the block at `off` and is counted in it. -/
def pending (rd : Reader) (off : Nat) : Bool :=
  decide (rd.absReadOffset ≤ off) && rd.leaveOffset.all fun e => decide (off < e)

def active (rd : Reader) : Bool := rd.leaveOffset.isNone

theorem pending_iff {rd : Reader} {off : Nat} :
    rd.pending off = true ↔
      rd.absReadOffset ≤ off ∧ ∀ e, rd.leaveOffset = some e → off < e := by
  cases h : rd.leaveOffset with
  | none => simp [pending, h]
  | some e => simp [pending, h]

end Reader

namespace Stage

/-- How many of the writer's steps were taken. -/
def rank : Stage → Nat
  | .waiting => 0
  | .admitted => 1
  | .offsetStored => 2
  | .sizeStored => 3
  | .typeStored => 4
  | .claimed => 5
  | .committed => 6
  | .aborted => 6

/-- The writer is done with the block. -/
def settled : Stage → Bool
  | .committed | .aborted => true
  | _ => false

/-- The flag a settled block carries. -/
def flag : Stage → CommitFlag
  | .committed => .readyForConsumer
  | .aborted => .aborted
  | _ => .notReady

theorem settled_iff {st : Stage} : st.settled = true ↔ st = .committed ∨ st = .aborted := by
  cases st <;> simp [settled]

theorem rank_of_settled {st : Stage} (h : st.settled = true) : st.rank = 6 := by
  cases st <;> simp [settled] at h <;> rfl

theorem not_settled_of_rank {st : Stage} (h : st.rank ≤ 5) : st.settled = false := by
  cases st <;> simp [rank, settled] at h ⊢

end Stage

def State.pendingCount (s : State) (off : Nat) : Nat := s.readers.countP (·.pending off)

/-- What the ring holds of a block its writer got to `stage` with and `pending`
readers have not passed. -/
structure BlockMem (Q : RingSize) (m : Memory) (b : Block) (stage : Stage) (pending : Nat) :
    Prop where
  absOffset : 2 ≤ stage.rank → 0 < pending → absOffset m (b.hdr Q) = b.offset
  messageSize : 3 ≤ stage.rank → 0 < pending → messageSize m (b.hdr Q) = b.messageSize Q
  type : 4 ≤ stage.rank → 0 < pending → type m (b.hdr Q) = (b.type Q).toNat
  numReaders : 5 ≤ stage.rank → (numReaders m (b.hdr Q)).toNat = pending
  commitFlag : stage.settled = true → 0 < pending →
    commitFlag m (b.hdr Q) = stage.flag.toByte
  data : stage = .committed → b.isPadding Q = false → 0 < pending →
    payload m (b.hdr Q) b.data.length = b.data

/-- What the ring holds of a block while its last reader clears it. -/
structure ClearMem (m : Memory) (step : ClearStep) (hdr totalMessageLen : Nat) : Prop where
  size : step = .body → messageSize m hdr + 18 = totalMessageLen
  flag : step = .advance → commitFlag m hdr = 0

/-- Reader `rd` clears the block `b`. -/
structure Clears (Q : RingSize) (s : State) (rd : Reader) (step : ClearStep)
    (hdr totalMessageLen : Nat) (b : Block) : Prop where
  mem_log : b ∈ s.log
  hdr_eq : hdr = b.hdr Q
  total_eq : totalMessageLen = b.length
  passed : rd.absReadOffset = b.finish
  joined : rd.joinOffset ≤ b.offset
  live : s.readOffset ≤ b.offset
  none_pending : s.pendingCount b.offset = 0
  settled : (s.stage b.offset).settled = true
  memory : ClearMem s.mem step hdr totalMessageLen

/-- A reader at `pos` that has a settled block in front of it, with the header
its pointer `hdr` points at. -/
structure Owns (Q : RingSize) (s : State) (rd : Reader) (hdr : Nat) (b : Block) : Prop where
  mem_log : b ∈ s.log
  hdr_eq : hdr = b.hdr Q
  position : rd.absReadOffset = b.offset
  settled : (s.stage b.offset).settled = true
  pending : rd.pending b.offset = true

/-- The offsets of the blocks reserved in `[c, d)`. -/
def State.offsetsIn (s : State) (c d : Nat) : List Nat :=
  (slice Block.offset s.log c d).map Block.offset

structure ReaderInv (Q : RingSize) (s : State) (rd : Reader) : Prop where
  join_le : rd.joinOffset ≤ rd.absReadOffset
  boundary : Boundary Block.offset s.log s.writeOffset rd.absReadOffset
  limit : ∀ e, rd.leaveOffset = some e →
    rd.absReadOffset ≤ e ∧ Boundary Block.offset s.log s.writeOffset e
  settled : ∀ b ∈ s.log, rd.joinOffset ≤ b.offset → b.offset < rd.absReadOffset →
    (s.stage b.offset).settled = true
  decremented : rd.decremented = s.offsetsIn rd.joinOffset rd.absReadOffset
  close : ∀ a before, rd.closeStart = some (a, before) →
    rd.joinOffset ≤ a ∧ a ≤ rd.absReadOffset ∧ before = s.offsetsIn rd.joinOffset a
  owns : ∀ hdr, rd.pc = .holding hdr ∨ rd.pc = .releaseCalled hdr → ∃ b, Owns Q s rd hdr b
  clearing : ∀ step hdr total, rd.pc = .clearing step hdr total →
    ∃ b, Clears Q s rd step hdr total b
  staying : rd.pc = .idle ∨ rd.pc = .flagLoaded ∨ rd.pc = .offsetMatched → rd.leaveOffset = none
  leaving : rd.pc = .draining ∨ rd.pc = .closed → rd.leaveOffset.isSome = true
  closed : rd.pc = .closed → rd.leaveOffset = some rd.absReadOffset

def Reader.isClearing (rd : Reader) : Prop := ∃ step hdr total, rd.pc = .clearing step hdr total

structure Inv (Q : RingSize) (s : State) : Prop where
  tiles : Tiles Block.offset Block.length 0 s.log s.writeOffset
  word : Packs s.readersAndWriteOffset (s.readers.countP Reader.active) s.writeOffset
  shape : ∀ b ∈ s.log, b.Shape Q
  counted : ∀ b ∈ s.log, 1 ≤ b.numReaders ∧ b.numReaders < 256
  room : s.writeOffset % Q.bytes + 18 ≤ Q.bytes
  mark : Boundary Block.offset s.log s.writeOffset s.readOffset
  window : ∀ b ∈ s.log, s.stage b.offset ≠ .waiting → b.finish ≤ s.readOffset + Q.bytes
  owed : ∀ rd ∈ s.readers, ∀ b ∈ s.log, rd.pending b.offset = true → s.readOffset ≤ b.offset
  reader : ∀ rd ∈ s.readers, ReaderInv Q s rd
  unsettled : ∀ b ∈ s.log, (s.stage b.offset).settled = false →
    s.pendingCount b.offset = b.numReaders
  block : ∀ b ∈ s.log, s.readOffset ≤ b.offset →
    BlockMem Q s.mem b (s.stage b.offset) (s.pendingCount b.offset)
  cleared : ∀ b ∈ s.log, s.readOffset ≤ b.offset → s.pendingCount b.offset = 0 →
    ∃ rd ∈ s.readers, rd.isClearing ∧ rd.absReadOffset = b.finish
  one_clears : ∀ (i j : Nat) (rd rd' : Reader), s.readers[i]? = some rd →
    s.readers[j]? = some rd' → rd.isClearing → rd'.isClearing →
    rd.absReadOffset = rd'.absReadOffset → i = j
  asserts : s.assertsHold = true

/-! ### Consequences of the invariant -/

section Consequences

variable {Q : RingSize} {s : State} {b c : Block} {rd : Reader}

theorem Inv.finish_le (h : Inv Q s) (hb : b ∈ s.log) : b.finish ≤ s.writeOffset :=
  (h.tiles.bounds hb).2.2

theorem Inv.finish_lt (h : Inv Q s) (hb : b ∈ s.log) : b.finish < 2 ^ 56 := by
  have hle := h.finish_le hb
  have hlt := h.word.offset_lt
  omega

theorem Inv.eq_of_offset_eq (h : Inv Q s) (hb : b ∈ s.log) (hc : c ∈ s.log)
    (heq : b.offset = c.offset) : b = c :=
  h.tiles.eq_of_start_eq hb hc heq

theorem Inv.finish_le_of_lt (h : Inv Q s) (hb : b ∈ s.log) (hc : c ∈ s.log)
    (hlt : b.offset < c.offset) : b.finish ≤ c.offset :=
  h.tiles.end_le_of_lt hb hc hlt

theorem Inv.eq_of_finish_eq (h : Inv Q s) (hb : b ∈ s.log) (hc : c ∈ s.log)
    (heq : b.finish = c.finish) : b = c := by
  have hbl := (h.shape b hb).length_ge
  have hcl := (h.shape c hc).length_ge
  simp only [Block.finish] at heq
  rcases h.tiles.disjoint hb hc with hd | hd | hd
  · omega
  · omega
  · exact hd

/-- What a reader relies on survives a step that keeps the log, the write offset
and every settled block, if the block the reader may be clearing is still as it
needs it. -/
theorem ReaderInv.transfer (hr : ReaderInv Q s rd) (s' : State) (hlog : s'.log = s.log)
    (hwrite : s'.writeOffset = s.writeOffset)
    (hsettled : ∀ b ∈ s.log, (s.stage b.offset).settled = true →
      (s'.stage b.offset).settled = true)
    (hclears : ∀ step hdr total b, Clears Q s rd step hdr total b →
      Clears Q s' rd step hdr total b) : ReaderInv Q s' rd := by
  have hoffsets : ∀ c d, s'.offsetsIn c d = s.offsetsIn c d := by
    intro c d
    rw [State.offsetsIn, State.offsetsIn, hlog]
  refine
    { join_le := hr.join_le, boundary := ?_, limit := ?_, settled := ?_, decremented := ?_,
      close := ?_, owns := ?_, clearing := ?_, staying := hr.staying, leaving := hr.leaving,
      closed := hr.closed }
  · rw [hlog, hwrite]
    exact hr.boundary
  · rw [hlog, hwrite]
    exact hr.limit
  · intro b hb hlo hhi
    rw [hlog] at hb
    exact hsettled b hb (hr.settled b hb hlo hhi)
  · rw [hoffsets]
    exact hr.decremented
  · intro a before hclose
    rw [hoffsets]
    exact hr.close a before hclose
  · intro hdr hpc
    obtain ⟨b, hb⟩ := hr.owns hdr hpc
    refine ⟨b, ?_, hb.hdr_eq, hb.position, hsettled b hb.mem_log hb.settled, hb.pending⟩
    rw [hlog]
    exact hb.mem_log
  · intro step hdr total hpc
    obtain ⟨b, hb⟩ := hr.clearing step hdr total hpc
    exact ⟨b, hclears step hdr total b hb⟩

theorem State.pendingCount_pos_iff {off : Nat} :
    0 < s.pendingCount off ↔ ∃ rd ∈ s.readers, rd.pending off = true := by
  simp [State.pendingCount, List.countP_pos_iff]

theorem State.pendingCount_pos {off : Nat} (hrd : rd ∈ s.readers)
    (hp : rd.pending off = true) : 0 < s.pendingCount off :=
  State.pendingCount_pos_iff.mpr ⟨rd, hrd, hp⟩

theorem Inv.live_of_unsettled (h : Inv Q s) (hb : b ∈ s.log)
    (hst : (s.stage b.offset).settled = false) :
    s.readOffset ≤ b.offset ∧ 0 < s.pendingCount b.offset := by
  have hcount := h.unsettled b hb hst
  have hpos := h.counted b hb
  have hpending : 0 < s.pendingCount b.offset := by omega
  obtain ⟨rd, hrd, hp⟩ := State.pendingCount_pos_iff.mp hpending
  exact ⟨h.owed rd hrd b hb hp, hpending⟩

/-- Two live blocks whose writers were admitted occupy disjoint bytes. -/
theorem Inv.ring_disjoint (h : Inv Q s) (hb : b ∈ s.log) (hc : c ∈ s.log) (hne : b ≠ c)
    (hbl : s.readOffset ≤ b.offset) (hcl : s.readOffset ≤ c.offset)
    (hbw : b.finish ≤ s.readOffset + Q.bytes) (hcw : c.finish ≤ s.readOffset + Q.bytes) :
    b.hdr Q + b.length ≤ c.hdr Q ∨ c.hdr Q + c.length ≤ b.hdr Q := by
  have horder : b.finish ≤ c.offset ∨ c.finish ≤ b.offset := by
    rcases h.tiles.disjoint hb hc with hd | hd | hd
    · exact Or.inl hd
    · exact Or.inr hd
    · exact absurd hd hne
  exact Block.ring_disjoint hbl hbw hcl hcw horder

end Consequences

/-! ### Writing inside one block -/

/-- Inside the ring, `m'` differs from `m` only in the bytes of `b`. -/
def Block.Frame (Q : RingSize) (b : Block) (m m' : Memory) : Prop :=
  ∀ i < Q.bytes, i < b.hdr Q ∨ b.hdr Q + b.length ≤ i → m' i = m i

section Frame

variable {Q : RingSize} {b c : Block} {m m' m'' : Memory}

open Memory

theorem Block.Frame.refl : b.Frame Q m m := fun _ _ _ => rfl

theorem Block.Frame.trans (h : b.Frame Q m m') (h' : b.Frame Q m' m'') : b.Frame Q m m'' :=
  fun i hi hout => (h' i hi hout).trans (h i hi hout)

theorem Block.Frame.of_sameOutside {a n : Nat} (h : SameOutside m m' a n) (hlo : b.hdr Q ≤ a)
    (hhi : a + n ≤ b.hdr Q + b.length ∨ Q.bytes ≤ b.hdr Q + b.length) : b.Frame Q m m' := by
  intro i hi hout
  apply h
  omega

theorem Block.Frame.sameOn (h : b.Frame Q m m') (hc : c.Shape Q)
    (hdisjoint : b.hdr Q + b.length ≤ c.hdr Q ∨ c.hdr Q + c.length ≤ b.hdr Q) :
    SameOn m m' (c.hdr Q) c.length := by
  have hfits := hc.fits
  intro i hlo hhi
  exact h i (by omega) (by omega)

/-- The data a writer copies stays inside its block. -/
theorem Block.Shape.data_fits (h : b.Shape Q) (hpad : b.isPadding Q = false) :
    b.data.length + 18 ≤ b.length := by
  have hdata := h.data_le
  rcases h.cases with ⟨-, hlen, -⟩ | ⟨hpad', -, -⟩
  · omega
  · rw [hpad] at hpad'
    cases hpad'

theorem BlockMem.congr {stage : Stage} {n : Nat} (h : BlockMem Q m b stage n) (hb : b.Shape Q)
    (hsame : SameOn m m' (b.hdr Q) b.length) : BlockMem Q m' b stage n := by
  have hlen := hb.length_ge
  constructor
  · intro hrank hn
    rw [absOffset_congr (hsame.mono (by omega) (by omega))]
    exact h.absOffset hrank hn
  · intro hrank hn
    rw [messageSize_congr (hsame.mono (by omega) (by omega))]
    exact h.messageSize hrank hn
  · intro hrank hn
    rw [type_congr (hsame.mono (by omega) (by omega))]
    exact h.type hrank hn
  · intro hrank
    rw [numReaders_congr (hsame.mono (by omega) (by omega))]
    exact h.numReaders hrank
  · intro hst hn
    rw [commitFlag_congr (hsame.mono (by omega) (by omega))]
    exact h.commitFlag hst hn
  · intro hst hpad hn
    have hdata := hb.data_fits hpad
    rw [payload_congr (hsame.mono (by omega) (by omega))]
    exact h.data hst hpad hn

theorem ClearMem.congr {step : ClearStep} {hdr total : Nat} (h : ClearMem m step hdr total)
    (hsame : SameOn m m' hdr 18) : ClearMem m' step hdr total := by
  constructor
  · intro hstep
    rw [messageSize_congr (hsame.mono (by omega) (by omega))]
    exact h.size hstep
  · intro hstep
    rw [commitFlag_congr (hsame.mono (by omega) (by omega))]
    exact h.flag hstep

/-- Nothing is stored yet in a block whose writer has not passed the wait loop. -/
theorem BlockMem.of_rank_le_one {stage : Stage} {n : Nat} (h : stage.rank ≤ 1) :
    BlockMem Q m b stage n := by
  have hst := Stage.not_settled_of_rank (by omega : stage.rank ≤ 5)
  constructor
  · intro hrank
    omega
  · intro hrank
    omega
  · intro hrank
    omega
  · intro hrank
    omega
  · intro hsettled
    rw [hst] at hsettled
    cases hsettled
  · rintro rfl
    cases hst

end Frame

end MockExchange
