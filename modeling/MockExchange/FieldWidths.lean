import MockExchange.CasLoops

/-!
# What the packed word counts

The loops run here without a limit on the readers or on the bytes. Each of the
two fields follows its own number modulo the field's width, so no operation
reaches into the other field, and a field is exact as long as its number fits.
-/

namespace MockExchange

open Transition UnpackedReadersAndWriterOffset

/-- No promise about how often anything happens. -/
def Unlimited (_ : CasState) (_ : CasAction) : Prop := True

instance (c : CasState) (a : CasAction) : Decidable (Unlimited c a) := isTrue trivial

/-- The reader count as everybody unwraps it. -/
def Roster.numReaders (R : Roster) : Nat := (unwrap R.readersAndWriteOffset).numReaders.toNat

/-- Both fields follow their numbers modulo their widths. -/
structure Roster.Follows (R : Roster) : Prop where
  readers : R.numReaders = R.activeReaders % 256
  offset : R.writeOffset = R.reservedBytes % 2 ^ 56

section

variable {Q : RingSize} {R : Roster} {r : Nat} {m : Membership} {caller : Caller}
  {c d : CasState}

/-! ### One operation -/

theorem Roster.join_writeOffset (R : Roster) : R.join.writeOffset = R.writeOffset := by
  change (unwrap (pack _ (unwrap R.readersAndWriteOffset).writeOffset)).writeOffset.toNat = _
  rw [unwrap_pack_writeOffset, writeOffset, unwrap_writeOffset_toNat]
  have := R.readersAndWriteOffset.toNat_lt
  omega

theorem Roster.leave_writeOffset (R : Roster) (r : Nat) (m : Membership) :
    (R.leave r m).writeOffset = R.writeOffset := by
  change (unwrap (pack _ (unwrap R.readersAndWriteOffset).writeOffset)).writeOffset.toNat = _
  rw [unwrap_pack_writeOffset, writeOffset, unwrap_writeOffset_toNat]
  have := R.readersAndWriteOffset.toNat_lt
  omega

theorem Roster.reserve_numReaders (R : Roster) (size : Nat) (data : List UInt8) :
    (R.reserve Q size data).numReaders = R.numReaders := by
  change (unwrap (pack (unwrap R.readersAndWriteOffset).numReaders _)).numReaders.toNat = _
  rw [unwrap_pack_numReaders, numReaders, unwrap_numReaders_toNat, Nat.mod_mod]

/-- A join or a leave keeps the write offset, a reservation the reader count. -/
theorem Roster.update_keeps (R : Roster) (caller : Caller) :
    ((R.update Q caller.action).log = R.log ∧
        (R.update Q caller.action).writeOffset = R.writeOffset) ∨
      ((R.update Q caller.action).members = R.members ∧
        (R.update Q caller.action).numReaders = R.numReaders) := by
  cases caller with
  | constructor i => exact Or.inl ⟨rfl, R.join_writeOffset⟩
  | writer i size data => exact Or.inr ⟨rfl, R.reserve_numReaders size data⟩
  | close r =>
    simp only [Roster.update, Caller.action]
    cases R.members[r]? with
    | none => exact Or.inl ⟨rfl, rfl⟩
    | some m => exact Or.inl ⟨rfl, R.leave_writeOffset r m⟩

theorem Roster.Follows.init : Roster.init.Follows := ⟨rfl, rfl⟩

theorem Roster.Follows.join (h : R.Follows) : R.join.Follows := by
  constructor
  · have hreaders := h.readers
    change (unwrap (pack ((unwrap R.readersAndWriteOffset).numReaders + 1) _)).numReaders.toNat = _
    rw [unwrap_pack_numReaders, UInt64.toNat_add, R.activeReaders_join]
    change (R.numReaders + 1) % 2 ^ 64 % 256 = _
    omega
  · rw [R.join_writeOffset]
    exact h.offset

theorem Roster.Follows.leave (h : R.Follows) (hm : R.members[r]? = some m)
    (hactive : m.leaveOffset = none) : (R.leave r m).Follows := by
  constructor
  · have hreaders := h.readers
    have hcount := Roster.activeReaders_leave hm hactive
    change (unwrap (pack ((unwrap R.readersAndWriteOffset).numReaders - 1) _)).numReaders.toNat = _
    rw [unwrap_pack_numReaders, UInt64.toNat_sub]
    change (2 ^ 64 - 1 + R.numReaders) % 2 ^ 64 % 256 = _
    omega
  · rw [R.leave_writeOffset]
    exact h.offset

theorem Roster.Follows.reserve (h : R.Follows) (size : Nat) (data : List UInt8) :
    (R.reserve Q size data).Follows := by
  constructor
  · rw [R.reserve_numReaders]
    exact h.readers
  · have hoffset := h.offset
    rw [R.reservedBytes_reserve]
    obtain ⟨n, hn⟩ : ∃ n, (newBlock Q R.readersAndWriteOffset size data).length = n := ⟨_, rfl⟩
    change (unwrap (pack _ ((unwrap R.readersAndWriteOffset).writeOffset +
      UInt64.ofNat (newBlock Q R.readersAndWriteOffset size data).length))).writeOffset.toNat = _
    rw [unwrap_pack_writeOffset, UInt64.toNat_add, UInt64.toNat_ofNat', hn]
    change (R.writeOffset + n % 2 ^ 64) % 2 ^ 64 % 2 ^ 56 = _
    omega

theorem Roster.Follows.update (h : R.Follows) (hallowed : R.MayCall Q caller) :
    (R.update Q caller.action).Follows := by
  cases caller with
  | constructor i => exact h.join
  | writer i size data => exact h.reserve size data
  | close r =>
    obtain ⟨m, hm, hactive⟩ := hallowed
    have hm' : R.members[r]? = some m := hm
    simp only [Roster.update, Caller.action, hm']
    exact h.leave hm' hactive

/-! ### Every run -/

theorem Roster.Follows.of_reach (hreach : Reach (casStep Q) Unlimited CasState.init c) :
    LoopInv Q c ∧ c.roster.Follows := by
  refine hreach.invariant (P := fun c => LoopInv Q c ∧ c.roster.Follows) ⟨.init, .init⟩ ?_
  rintro c a d ⟨hi, hfollows⟩ - hstep
  obtain ⟨hi', heffect⟩ := hi.step hstep
  refine ⟨hi', ?_⟩
  cases heffect with
  | local_step hsame =>
    rw [hsame]
    exact hfollows
  | atomic caller hallowed hupdate =>
    rw [hupdate]
    exact hfollows.update hallowed

/-- The fields are the numbers they stand for as long as these fit, the offset
follows its number beyond that, and every step keeps one of the two fields. -/
theorem packed_word_follows (hreach : Reach (casStep Q) Unlimited CasState.init c) :
    (c.roster.activeReaders < 256 → c.roster.numReaders = c.roster.activeReaders) ∧
    c.roster.writeOffset = c.roster.reservedBytes % 2 ^ 56 ∧
    ∀ a d, casStep Q c a = some d →
      (d.roster.log = c.roster.log ∧ d.roster.writeOffset = c.roster.writeOffset) ∨
      (d.roster.members = c.roster.members ∧ d.roster.numReaders = c.roster.numReaders) := by
  obtain ⟨hi, hfollows⟩ := Roster.Follows.of_reach hreach
  refine ⟨?_, hfollows.offset, ?_⟩
  · intro hfits
    rw [hfollows.readers, Nat.mod_eq_of_lt hfits]
  · intro a d hstep
    obtain ⟨-, heffect⟩ := hi.step hstep
    cases heffect with
    | local_step hsame =>
      rw [hsame]
      exact Or.inl ⟨rfl, rfl⟩
    | atomic caller hallowed hupdate =>
      rw [hupdate]
      exact c.roster.update_keeps caller

/-! ### Past the widths -/

/-- A caller that nobody disturbs takes effect in three steps. -/
theorem exists_undisturbed (hidle : c.loops caller = none) (hallowed : c.roster.MayCall Q caller) :
    ∃ d, Reach (casStep Q) Unlimited c d ∧ d.loops caller = none ∧
      d.roster = c.roster.update Q caller.action := by
  obtain ⟨l, hl⟩ : ∃ l, CasLoop.start.load Q caller c.roster.readersAndWriteOffset = l := ⟨_, rfl⟩
  have hcoherent : l.Coherent Q caller := hl ▸ CasLoop.coherent_load _
  have hloaded : l.loaded = true := hl ▸ rfl
  have hcurrent : c.roster.readersAndWriteOffset = l.current := hl ▸ rfl
  have hcall : casStep Q c (.call caller) = some (c.setLoop caller (some .start)) :=
    if_pos ⟨hidle, hallowed⟩
  have hload : casStep Q (c.setLoop caller (some .start)) (.load caller) =
      some ((c.setLoop caller (some .start)).setLoop caller (some l)) := by
    simp [casStep, CasState.setLoop, CasLoop.start, ← hl]
  have hexchange : casStep Q ((c.setLoop caller (some .start)).setLoop caller (some l))
      (.exchange caller false) =
      some { ((c.setLoop caller (some .start)).setLoop caller (some l)).setLoop caller none with
        roster := c.roster.update Q caller.action } := by
    rw [← CasLoop.finish_eq hloaded hcoherent hcurrent]
    simp [casStep, CasState.setLoop, hloaded, hcurrent]
  refine ⟨_, (((Reach.refl c).next trivial hcall).next trivial hload).next trivial hexchange, ?_,
    rfl⟩
  simp [CasState.setLoop]

theorem exists_joined (n : Nat) : ∃ c, Reach (casStep Q) Unlimited CasState.init c ∧
    c.loops (.constructor 0) = none ∧ c.roster.activeReaders = n := by
  induction n with
  | zero => exact ⟨.init, .refl _, rfl, rfl⟩
  | succ n ih =>
    obtain ⟨c, hreach, hidle, hcount⟩ := ih
    obtain ⟨d, hnext, hidle', hroster⟩ := exists_undisturbed hidle trivial
    refine ⟨d, hreach.trans hnext, hidle', ?_⟩
    rw [hroster]
    exact (c.roster.activeReaders_join).trans (by rw [hcount])

/-- Claims of 46 bytes from a ring of 64 take a lap each. -/
theorem exists_laps_reserved (n : Nat) :
    ∃ c, Reach (casStep .smallest) Unlimited CasState.init c ∧
      c.loops (.writer 0 46 []) = none ∧ c.roster.reservedBytes = n * 64 := by
  induction n with
  | zero => exact ⟨.init, .refl _, rfl, rfl⟩
  | succ n ih =>
    obtain ⟨c, hreach, hidle, hbytes⟩ := ih
    obtain ⟨d, hnext, hidle', hroster⟩ :=
      exists_undisturbed (Q := .smallest) hidle ⟨by decide, by decide⟩
    refine ⟨d, hreach.trans hnext, hidle', ?_⟩
    have hoffset := (Roster.Follows.of_reach hreach).2.offset
    have hlength : bytesToBump 64 c.roster.writeOffset (46 + 18) = 64 := by
      rw [bytesToBump_eq, if_neg (by omega), hoffset, hbytes]
      omega
    rw [hroster]
    change (c.roster.reserve .smallest 46 []).reservedBytes = _
    rw [c.roster.reservedBytes_reserve, hbytes]
    change n * 64 + bytesToBump 64 c.roster.writeOffset (46 + 18) = _
    omega

end

/-- After `2 ^ 56` bytes the write offset is back at zero, and with 256 readers
the count is. -/
theorem fields_wrap :
    (∃ c, Reach (casStep .smallest) Unlimited CasState.init c ∧
      c.roster.reservedBytes = 2 ^ 56 ∧ c.roster.writeOffset = 0) ∧
    ∃ c, Reach (casStep .smallest) Unlimited CasState.init c ∧
      c.roster.activeReaders = 256 ∧ c.roster.numReaders = 0 := by
  constructor
  · obtain ⟨c, hreach, -, hbytes⟩ := exists_laps_reserved (2 ^ 50)
    have hoffset := (Roster.Follows.of_reach hreach).2.offset
    refine ⟨c, hreach, hbytes, ?_⟩
    rw [hoffset, hbytes]
    rfl
  · obtain ⟨c, hreach, -, hcount⟩ := exists_joined (Q := .smallest) 256
    have hreaders := (Roster.Follows.of_reach hreach).2.readers
    refine ⟨c, hreach, hcount, ?_⟩
    rw [hreaders, hcount]

/-- A second reader joins across a claim whose exchange fails spuriously once,
and the first reader leaves. -/
theorem packed_word_follows_raced : ∃ c : CasState,
    c.roster.members = [⟨0, some 20⟩, ⟨20, none⟩] ∧ c.roster.numReaders = 1 ∧
      c.roster.reservedBytes = 20 ∧ c.roster.writeOffset = 20 := by
  let join (i : Nat) : Caller := .constructor i
  let claim : Caller := .writer 0 2 [7]
  let labels : List CasAction :=
    [.call (join 0), .load (join 0), .exchange (join 0) false,
      .call (join 1), .call claim, .load (join 1), .load claim, .exchange claim true,
      .load claim, .exchange claim false, .exchange (join 1) false, .load (join 1),
      .exchange (join 1) false,
      .call (.close 0), .load (.close 0), .exchange (.close 0) false]
  have hexec : (exec (casStep .smallest) Unlimited CasState.init labels).any (fun c =>
      decide (c.roster.members = [⟨0, some 20⟩, ⟨20, none⟩] ∧
        c.roster.activeReaders = 1 ∧ c.roster.reservedBytes = 20)) = true := by
    decide +kernel
  obtain ⟨c, hrun, hc⟩ := exists_run_of_exec hexec
  obtain ⟨hmembers, hactive, hbytes⟩ := of_decide_eq_true hc
  obtain ⟨hreaders, hoffset, -⟩ := packed_word_follows ⟨labels, hrun⟩
  exact ⟨c, hmembers, (hreaders (by omega)).trans hactive, hbytes,
    hoffset.trans (Nat.mod_eq_of_lt (by omega) |>.trans hbytes)⟩

end MockExchange
