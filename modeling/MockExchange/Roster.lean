import MockExchange.LowWatermark

/-!
# The roster of readers and reservations

Joins, leaves and reservations share one packed word, and what they decide is
kept here apart from the ring: which blocks were reserved, with how many
readers, and between which write offsets every reader was joined. A reservation
counts exactly the readers joined at its offset.
-/

namespace MockExchange

open Tiling Transition ListUpdate UnpackedReadersAndWriterOffset

/-- Between which write offsets a reader is joined. -/
structure Membership where
  joinOffset : Nat
  leaveOffset : Option Nat
deriving DecidableEq, Repr

structure Roster where
  readersAndWriteOffset : UInt64
  log : List Block
  members : List Membership
deriving DecidableEq, Repr

namespace Membership

def active (m : Membership) : Bool := m.leaveOffset.isNone

/-- The reader is joined at the write offset `off`. -/
def countedIn (m : Membership) (off : Nat) : Bool :=
  decide (m.joinOffset ≤ off) && m.leaveOffset.all fun e => decide (off < e)

end Membership

def Reader.membership (rd : Reader) : Membership := ⟨rd.joinOffset, rd.leaveOffset⟩

def State.roster (s : State) : Roster where
  readersAndWriteOffset := s.readersAndWriteOffset
  log := s.log
  members := s.readers.map Reader.membership

variable (Q : RingSize)

namespace Roster

def init : Roster := ⟨0, [], []⟩

def writeOffset (R : Roster) : Nat := (unwrap R.readersAndWriteOffset).writeOffset.toNat

/-- How many readers are joined. -/
def activeReaders (R : Roster) : Nat := R.members.countP Membership.active

/-- How many bytes were reserved. -/
def reservedBytes (R : Roster) : Nat := (R.log.map Block.length).sum

def join (R : Roster) : Roster :=
  let result := (unwrap R.readersAndWriteOffset).returnAddReader
  { R with
    readersAndWriteOffset := result.2
    members := R.members ++ [⟨result.1.writeOffset.toNat, none⟩] }

def leave (R : Roster) (r : Nat) (m : Membership) : Roster :=
  let result := (unwrap R.readersAndWriteOffset).returnSubReader
  { R with
    readersAndWriteOffset := result.2
    members := R.members.set r { m with leaveOffset := some result.1.writeOffset.toNat } }

/-- The block a reservation takes when its CAS finds the word `current`. -/
def newBlock (current : UInt64) (size : Nat) (data : List UInt8) : Block :=
  let wrapper := unwrap current
  { offset := wrapper.writeOffset.toNat
    length := bytesToBump Q.bytes wrapper.writeOffset.toNat (size + sizeofMessageHeader)
    size := size
    numReaders := wrapper.numReaders.toNat
    data := data }

def reserve (R : Roster) (size : Nat) (data : List UInt8) : Roster :=
  let b := newBlock Q R.readersAndWriteOffset size data
  { R with
    readersAndWriteOffset :=
      ((unwrap R.readersAndWriteOffset).returnAddOffset (UInt64.ofNat b.length)).2
    log := R.log ++ [b] }

/-- What an atomic step does to the roster. -/
def update (R : Roster) : Action → Roster
  | .join => R.join
  | .reserve size data => R.reserve Q size data
  | .leave r => match R.members[r]? with
    | some m => R.leave r m
    | none => R
  | _ => R

end Roster

section

variable {Q} {s t : State} {R : Roster} {r : Nat} {m : Membership} {b : Block}

/-! ### The roster of a state -/

theorem State.roster_congr (hlog : t.log = s.log)
    (hword : t.readersAndWriteOffset = s.readersAndWriteOffset)
    (hmembers : t.readers.map Reader.membership = s.readers.map Reader.membership) :
    t.roster = s.roster := by
  rw [State.roster, State.roster, hlog, hword, hmembers]

theorem roster_join : (join s).roster = s.roster.join := by
  simp [State.roster, Roster.join, join, Reader.joinedAt, Reader.membership]

theorem roster_reserve (size : Nat) (data : List UInt8) :
    (reserve Q s size data).roster = s.roster.reserve Q size data := rfl

theorem roster_leave {rd : Reader} :
    (leave s r rd).roster = s.roster.leave r rd.membership := by
  simp only [State.roster, Roster.leave, leave, List.map_set]
  rfl

/-- The atomic steps that neither join, reserve nor leave. -/
def Action.keepsRoster : Action → Bool
  | .join | .reserve _ _ | .leave _ => false
  | _ => true

theorem Change.roster_eq {a : Action} (hchange : Change Q s a t)
    (hkeeps : a.keepsRoster = true) : t.roster = s.roster := by
  cases hchange with
  | join => cases hkeeps
  | reserve => cases hkeeps
  | leave => cases hkeeps
  | write => rfl
  | @move a r rd rd' asserts hrd hsame =>
    have hmember : rd'.membership = rd.membership := by
      rw [Reader.membership, Reader.membership, hsame.joinOffset, hsame.leaveOffset]
    exact State.roster_congr rfl rfl (map_set_of_eq Reader.membership hrd hmember)
  | fetchSub hrd =>
    refine State.roster_congr rfl rfl ?_
    exact map_set_of_eq Reader.membership hrd rfl
  | @clearStep r hdr total rd step hrd =>
    have hword : (MockExchange.clearStep s r rd step hdr total).readersAndWriteOffset =
        s.readersAndWriteOffset := by
      cases step <;> rfl
    obtain ⟨hlog, -⟩ := clearStep_keeps s r rd step hdr total
    obtain ⟨pc, hreaders⟩ := clearStep_readers s r rd step hdr total
    refine State.roster_congr hlog hword ?_
    rw [hreaders]
    exact map_set_of_eq Reader.membership hrd rfl

/-- Of all atomic steps only joins, reservations and leaves touch the roster. -/
theorem Taken.roster_eq {a : Action} (htaken : Taken Q s a t) :
    t.roster = s.roster.update Q a := by
  have hkept : a.keepsRoster = true → t.roster = s.roster := htaken.change.roster_eq
  cases htaken with
  | join => exact roster_join
  | reserve => exact roster_reserve _ _
  | @leave r rd hrd =>
    have hmember : s.roster.members[r]? = some rd.membership := by
      simp [State.roster, hrd]
    simp only [Roster.update, hmember]
    exact roster_leave
  | _ => exact hkept rfl

/-! ### A reservation counts the readers that reach it -/

/-- What joins, leaves and reservations keep. -/
structure Roster.Counts (R : Roster) : Prop where
  tiles : Tiles Block.offset Block.length 0 R.log R.writeOffset
  word : Packs R.readersAndWriteOffset R.activeReaders R.writeOffset
  counted : ∀ b ∈ R.log, b.numReaders = R.members.countP (·.countedIn b.offset)
  joined : ∀ m ∈ R.members, Boundary Block.offset R.log R.writeOffset m.joinOffset
  left : ∀ m ∈ R.members, ∀ e, m.leaveOffset = some e →
    Boundary Block.offset R.log R.writeOffset e

theorem Roster.Counts.init : Roster.init.Counts := by
  refine ⟨?_, Packs.zero, ?_, ?_, ?_⟩
  · change 0 = Roster.init.writeOffset
    rfl
  · simp [Roster.init]
  · simp [Roster.init]
  · simp [Roster.init]

theorem Roster.Counts.offset_lt (h : R.Counts) (hb : b ∈ R.log) : b.offset < R.writeOffset := by
  have := h.tiles.bounds hb
  omega

/-- A reader joined at the end and not gone counts in no block so far. -/
theorem Membership.not_countedIn {off : Nat} (h : off < m.joinOffset) :
    m.countedIn off = false := by
  simp [countedIn, h]

theorem Roster.activeReaders_join (R : Roster) :
    R.join.activeReaders = R.activeReaders + 1 := by
  simp [activeReaders, Roster.join, Membership.active]

theorem Roster.reservedBytes_reserve (R : Roster) (size : Nat) (data : List UInt8) :
    (R.reserve Q size data).reservedBytes =
      R.reservedBytes + (newBlock Q R.readersAndWriteOffset size data).length := by
  simp [reservedBytes, Roster.reserve]

theorem Roster.Counts.reservedBytes_eq (h : R.Counts) : R.reservedBytes = R.writeOffset := by
  have hsum := h.tiles.add_sum
  rw [Nat.zero_add] at hsum
  exact hsum

theorem Roster.Counts.join (h : R.Counts) (hroom : R.activeReaders < 255) : R.join.Counts := by
  have hword := h.word.returnAddReader (by omega)
  have hoff : (unwrap R.readersAndWriteOffset).returnAddReader.1.writeOffset.toNat =
      R.writeOffset := rfl
  have hoffset : R.join.writeOffset = R.writeOffset := hword.writeOffset
  have hactive : R.join.activeReaders = R.activeReaders + 1 := R.activeReaders_join
  have hmem : ∀ m ∈ R.join.members, m ∈ R.members ∨ m = ⟨R.writeOffset, none⟩ := by
    simp [Roster.join, hoff]
  refine ⟨?_, ?_, ?_, ?_, ?_⟩
  · rw [hoffset]
    exact h.tiles
  · rw [hactive, hoffset]
    exact hword
  · intro b hb
    have hnot : (⟨R.writeOffset, none⟩ : Membership).countedIn b.offset = false :=
      Membership.not_countedIn (h.offset_lt hb)
    rw [h.counted b hb]
    simp [Roster.join, hoff, hnot]
  · intro m hm
    rw [hoffset]
    rcases hmem m hm with hold | rfl
    · exact h.joined m hold
    · exact Or.inl rfl
  · intro m hm e he
    rw [hoffset]
    rcases hmem m hm with hold | rfl
    · exact h.left m hold e he
    · cases he

/-- A reader that leaves was counted. -/
theorem Roster.activeReaders_leave (hm : R.members[r]? = some m) (hactive : m.leaveOffset = none) :
    R.activeReaders = (R.leave r m).activeReaders + 1 := by
  have hlive : m.active = true := by rw [Membership.active, hactive]; rfl
  have hset := countP_set (y := { m with
    leaveOffset := some (unwrap R.readersAndWriteOffset).returnSubReader.1.writeOffset.toNat })
      Membership.active hm
  simp only [hlive, if_true] at hset
  simp only [Membership.active, Option.isNone_some, Bool.false_eq_true, if_false] at hset
  simp only [activeReaders, Roster.leave]
  omega

theorem Roster.Counts.leave (h : R.Counts) (hm : R.members[r]? = some m)
    (hactive : m.leaveOffset = none) : (R.leave r m).Counts := by
  have hcount := Roster.activeReaders_leave hm hactive
  have hword := h.word.returnSubReader (by omega)
  have hoff : (unwrap R.readersAndWriteOffset).returnSubReader.1.writeOffset.toNat =
      R.writeOffset := rfl
  have hoffset : (R.leave r m).writeOffset = R.writeOffset := hword.writeOffset
  have hmembers : (R.leave r m).members =
      R.members.set r { m with leaveOffset := some R.writeOffset } := rfl
  have hactive' : (R.leave r m).activeReaders = R.activeReaders - 1 := by omega
  have hleft : ∀ m' ∈ (R.leave r m).members, m' ∈ R.members ∨
      m' = { m with leaveOffset := some R.writeOffset } := by
    intro m' hm'
    exact List.mem_or_eq_of_mem_set (hmembers ▸ hm')
  refine ⟨?_, ?_, ?_, ?_, ?_⟩
  · rw [hoffset]
    exact h.tiles
  · rw [hactive', hoffset]
    exact hword
  · intro b hb
    -- what was reserved before the leave still counts the reader
    have hlt := h.offset_lt hb
    rw [h.counted b hb, hmembers]
    refine (countP_set_of_eq _ hm ?_).symm
    simp [Membership.countedIn, hactive, hlt]
  · intro m' hm'
    rw [hoffset]
    rcases hleft m' hm' with hold | rfl
    · exact h.joined m' hold
    · exact h.joined m (List.mem_of_getElem? hm)
  · intro m' hm' e he
    rw [hoffset]
    rcases hleft m' hm' with hold | rfl
    · exact h.left m' hold e he
    · cases he
      exact Or.inl rfl

theorem bytesToBump_pos (w n : Nat) : 0 < bytesToBump Q.bytes w (n + 18) := by
  have hQ := Q.ge_64
  have hmod : w % Q.bytes < Q.bytes := Nat.mod_lt _ (by omega)
  rw [bytesToBump_eq]
  split <;> omega

theorem Roster.Counts.reserve (h : R.Counts) {size : Nat} {data : List UInt8}
    (hroom : R.writeOffset + (newBlock Q R.readersAndWriteOffset size data).length < 2 ^ 56) :
    (R.reserve Q size data).Counts := by
  generalize hb : newBlock Q R.readersAndWriteOffset size data = b at hroom
  have hstart : b.offset = R.writeOffset := by subst hb; rfl
  have hpos : 0 < b.length := by subst hb; exact bytesToBump_pos _ _
  have hreaders : b.numReaders = R.activeReaders := by subst hb; exact h.word.numReaders
  have hreserve : R.reserve Q size data = { R with
      readersAndWriteOffset :=
        ((unwrap R.readersAndWriteOffset).returnAddOffset (UInt64.ofNat b.length)).2
      log := R.log ++ [b] } := by subst hb; rfl
  have hlen : (UInt64.ofNat b.length).toNat = b.length := by
    rw [UInt64.toNat_ofNat']
    exact Nat.mod_eq_of_lt (by omega)
  have hword := h.word.returnAddOffset (k := UInt64.ofNat b.length) (by omega)
  rw [hlen] at hword
  have hoffset : (R.reserve Q size data).writeOffset = R.writeOffset + b.length := by
    rw [hreserve]
    exact hword.writeOffset
  -- the readers joined at the end are those that have not left
  have hcount : R.members.countP (·.countedIn R.writeOffset) = R.activeReaders := by
    refine List.countP_congr ?_
    intro m hm
    have hjoin := (h.joined m hm).le h.tiles
    cases hleave : m.leaveOffset with
    | none => simp [Membership.countedIn, Membership.active, hleave, hjoin]
    | some e =>
      have := (h.left m hm e hleave).le h.tiles
      simp [Membership.countedIn, Membership.active, hleave]
      omega
  refine ⟨?_, ?_, ?_, ?_, ?_⟩
  · rw [hoffset, hreserve]
    exact h.tiles.append hstart hpos
  · rw [hoffset, hreserve]
    exact hword
  · intro c hc
    rw [hreserve, List.mem_append, List.mem_singleton] at hc
    rw [hreserve]
    rcases hc with hold | rfl
    · exact h.counted c hold
    · rw [hreaders, hstart, hcount]
  · intro m hm
    rw [hoffset, hreserve]
    rw [hreserve] at hm
    exact (h.joined m hm).append hstart _
  · intro m hm e he
    rw [hoffset, hreserve]
    rw [hreserve] at hm
    exact (h.left m hm e he).append hstart _

end

end MockExchange
