import MockExchange.CasLoops

/-!
# Reservations tile the stream

A reservation takes either what its message needs or the rest of the ring, and
`claim_buffer` decides a second time, from the offset it gets back, which of the
two it was. Over every interleaving of the retry loops the reserved ranges follow
one another without gaps, none runs over the ring's end, and a header always fits
at the write offset.
-/

namespace MockExchange

open Tiling Transition

/-- What a reservation took, without what its writer is going to write. -/
def Block.reservation (b : Block) : Block := { b with data := [] }

/-- A range cut out of the ring in one piece: a message with room for one more
header behind it, or a skip message that runs to the ring's end. -/
def Block.CutOut (Q : RingSize) (b : Block) : Prop :=
  (needsSkip Q.bytes b.offset b.size = false ∧ b.length = b.size + sizeofMessageHeader ∧
    b.hdr Q + b.length + sizeofMessageHeader ≤ Q.bytes) ∨
  (needsSkip Q.bytes b.offset b.size = true ∧ b.hdr Q + b.length = Q.bytes)

/-- What every reservation keeps. -/
structure Roster.Cut (Q : RingSize) (R : Roster) : Prop where
  shape : ∀ b ∈ R.log, b.reservation.Shape Q
  room : R.writeOffset % Q.bytes + sizeofMessageHeader ≤ Q.bytes

section

variable {Q : RingSize} {b : Block} {R : Roster} {caller : Caller} {c d : CasState}

theorem Block.Shape.cutOut (h : b.reservation.Shape Q) : b.CutOut Q := by
  rcases h.cases with ⟨hpad, hlen, hfit⟩ | ⟨hpad, hfit, -⟩
  · exact Or.inl ⟨hpad, hlen, hfit⟩
  · exact Or.inr ⟨hpad, hfit⟩

/-- A range that ends within the ring's lap it starts in crosses no multiple of
the ring size. -/
theorem Block.finish_le_of_lt (hfits : b.hdr Q + b.length ≤ Q.bytes) {k : Nat}
    (hlt : b.offset < k * Q.bytes) : b.finish ≤ k * Q.bytes := by
  have hdiv := Nat.div_add_mod b.offset Q.bytes
  have hlap : b.offset / Q.bytes < k := Nat.div_lt_of_lt_mul (by rwa [Nat.mul_comm])
  have hnext : Q.bytes * (b.offset / Q.bytes + 1) ≤ Q.bytes * k := Nat.mul_le_mul_left _ hlap
  rw [Nat.mul_succ, Nat.mul_comm Q.bytes k] at hnext
  unfold Block.hdr at hfits
  unfold Block.finish
  omega

theorem Roster.Cut.init : Roster.init.Cut Q := by
  have hQ := Q.ge_64
  constructor
  · intro b hb
    cases hb
  · have hzero : Roster.init.writeOffset = 0 := rfl
    rw [hzero, Nat.zero_mod]
    change 0 + 18 ≤ Q.bytes
    omega

/-- Joins and leaves do not move the write offset. -/
theorem Roster.Cut.congr {R' : Roster} (h : R.Cut Q) (hlog : R'.log = R.log)
    (hoffset : R'.writeOffset = R.writeOffset) : R'.Cut Q := by
  constructor
  · rw [hlog]
    exact h.shape
  · rw [hoffset]
    exact h.room

/-- The block a reservation takes at an offset with room for a header. -/
theorem Roster.shape_newBlock {size : Nat} (data : List UInt8) (hpos : 0 < size)
    (hle : size ≤ Q.bytes - sizeofMessageHeader)
    (hroom : R.writeOffset % Q.bytes + sizeofMessageHeader ≤ Q.bytes) :
    (Roster.newBlock Q R.readersAndWriteOffset size data).reservation.Shape Q where
  size_pos := hpos
  size_le := hle
  data_le := Nat.zero_le _
  length_eq := rfl
  room := hroom

theorem Roster.Cut.update (h : R.Cut Q) (hcounts : R.Counts) (hallowed : R.MayCall Q caller)
    (hcounts' : (R.update Q caller.action).Counts) : (R.update Q caller.action).Cut Q := by
  have htiles := hcounts'.tiles
  cases caller with
  | constructor i => exact h.congr rfl (htiles.end_unique hcounts.tiles)
  | close r =>
    obtain ⟨m, hm, -⟩ := hallowed
    have hm' : R.members[r]? = some m := hm
    simp only [Roster.update, Caller.action, hm'] at htiles ⊢
    exact h.congr rfl (htiles.end_unique hcounts.tiles)
  | writer i size data =>
    obtain ⟨hpos, hle⟩ := hallowed
    have hshape := Roster.shape_newBlock data hpos hle h.room
    have hlast := hcounts.tiles.append (x := Roster.newBlock Q R.readersAndWriteOffset size data)
      rfl (bytesToBump_pos _ _)
    constructor
    · intro b hb
      rcases List.mem_append.mp hb with hold | hnew
      · exact h.shape b hold
      · rw [List.mem_singleton.mp hnew]
        exact hshape
    · rw [htiles.end_unique hlast]
      exact hshape.room_finish

theorem Roster.Cut.of_reach (hreach : Reach (casStep Q) (WithinLimits Q) CasState.init c) :
    c.roster.Cut Q := by
  have hboth : CasInv Q c ∧ c.roster.Cut Q := by
    refine hreach.invariant (P := fun c => CasInv Q c ∧ c.roster.Cut Q) ⟨.init, .init⟩ ?_
    rintro c a d ⟨hi, hcut⟩ hlimits hstep
    obtain ⟨hi', heffect⟩ := hi.step hlimits hstep
    refine ⟨hi', ?_⟩
    cases heffect with
    | local_step hsame =>
      rw [hsame]
      exact hcut
    | atomic caller hallowed hupdate =>
      have hcounts' := hi'.counts
      rw [hupdate] at hcounts' ⊢
      exact hcut.update hi.counts hallowed hcounts'
  exact hboth.2

/-- The reserved ranges are consecutive and disjoint, cover what lies below the
write offset, and are cut out of the ring in one piece each. -/
theorem reservations_tile (hreach : Reach (casStep Q) (WithinLimits Q) CasState.init c) :
    Tiles Block.offset Block.length 0 c.roster.log c.roster.writeOffset ∧
    (∀ b ∈ c.roster.log, ∀ b' ∈ c.roster.log, b ≠ b' →
      b.finish ≤ b'.offset ∨ b'.finish ≤ b.offset) ∧
    (∀ p, p < c.roster.writeOffset ↔ ∃ b ∈ c.roster.log, b.offset ≤ p ∧ p < b.finish) ∧
    (∀ b ∈ c.roster.log, ∀ k, b.offset < k * Q.bytes → b.finish ≤ k * Q.bytes) ∧
    c.roster.writeOffset % Q.bytes + sizeofMessageHeader ≤ Q.bytes ∧
    ∀ b ∈ c.roster.log, b.CutOut Q := by
  have htiles := (CasInv.of_reach hreach).counts.tiles
  have hcut := Roster.Cut.of_reach hreach
  refine ⟨htiles, ?_, ?_, ?_, hcut.room, fun b hb => (hcut.shape b hb).cutOut⟩
  · intro b hb b' hb' hne
    rcases htiles.disjoint hb hb' with hbefore | hafter | heq
    · exact Or.inl hbefore
    · exact Or.inr hafter
    · exact absurd heq hne
  · intro p
    constructor
    · exact htiles.cover (Nat.zero_le p)
    · rintro ⟨b, hb, -, hlt⟩
      have hend := (htiles.bounds hb).2.2
      unfold Block.finish at hlt
      omega
  · intro b hb k hlt
    exact Block.finish_le_of_lt (hcut.shape b hb).fits hlt

end

/-- Two writers race for a ring of 64 bytes: the loser's message no longer fits,
and it gets a skip message. -/
theorem reservations_tile_race : ∃ c : CasState,
    (c.roster.log.map fun b => (b.offset, b.length, needsSkip 64 b.offset b.size)) =
      [(0, 40, false), (40, 24, true), (64, 28, false)] ∧
    c.roster.writeOffset % 64 + sizeofMessageHeader ≤ 64 ∧
    ∀ b ∈ c.roster.log, b.CutOut .smallest := by
  let first : Caller := .writer 0 22 []
  let second : Caller := .writer 1 10 []
  let third : Caller := .writer 2 10 []
  let labels : List CasAction :=
    [.call first, .call second, .load first, .load second, .exchange first false,
      .exchange second false, .load second, .exchange second false, .call third, .load third,
      .exchange third false]
  have hexec : (exec (casStep .smallest) (WithinLimits .smallest) CasState.init labels).any
      (fun c => decide ((c.roster.log.map fun b =>
        (b.offset, b.length, needsSkip 64 b.offset b.size)) =
          [(0, 40, false), (40, 24, true), (64, 28, false)])) = true := by
    decide +kernel
  obtain ⟨c, hrun, hc⟩ := exists_run_of_exec hexec
  obtain ⟨-, -, -, -, hroom, hcut⟩ := reservations_tile ⟨labels, hrun⟩
  exact ⟨c, of_decide_eq_true hc, hroom, hcut⟩

end MockExchange
