import MockExchange.Uniform

/-!
# Whole operations

Here admission with the header write, a write with its commit, `poll_buffer`
with the calls it makes to itself, and `release_buffer` are one step each. An
operation is a row of the atomic steps of one agent, so a run of operations is
a run of the atomic system: `reach_of_operations`.
-/

namespace MockExchange

open ByteMemory Tiling MessageHeader Transition ListUpdate

variable (Q : RingSize)

/-- One pass of the wait loop; when it ends the wait, also the header stores of
`claim_buffer` or the whole of `insert_skip_message`. -/
def finishClaim (s : State) (b : Block) : State :=
  if mustWait Q s b then s
  else
    let claimed := (storeHeader Q · b)^[4] (loadReadOffset Q s b)
    if b.isPadding Q then finishSkip Q claimed b else claimed

/-- The atomic steps of the `release_buffer` call a reader is in: one, or six
for the reader that clears the block. -/
def finishRelease (s : State) (r : Nat) : State := (releaseStep Q · r)^[6] s

/-- `poll_buffer`, making at most `fuel` calls. -/
def pollBuffer : Nat → State → Nat → Option State
  | 0, _, _ => none
  | fuel + 1, s, r => s.readers[r]?.bind fun rd =>
    match pollOutcome Q s.mem rd.absReadOffset with
    | .nullopt => some s
    | .skipPadding | .skipAborted =>
      pollBuffer fuel (finishRelease Q (pollHeader Q s r rd) r) r
    | .wrapper => some (pollHeader Q s r rd)

inductive Op where
  | join
  | reserve (size : Nat) (data : List UInt8)
  | finishClaim (b : Block)
  | writeToBuffer (b : Block)
  | abortBuffer (b : Block)
  | pollBuffer (r fuel : Nat)
  | releaseBuffer (r : Nat)
deriving DecidableEq, Repr

/-- One operation. A reader polls when it holds no wrapper and releases the one
it holds. -/
def opStep (s : State) : Op → Option State
  | .join => some (join s)
  | .reserve size data => step Q s (.reserve size data)
  | .finishClaim b => if s.AtStage b .waiting then some (finishClaim Q s b) else none
  | .writeToBuffer b => step Q s (.writeToBuffer b)
  | .abortBuffer b => step Q s (.abortBuffer b)
  | .pollBuffer r fuel => s.readers[r]?.bind fun rd =>
    if rd.pc = .idle then pollBuffer Q fuel s r else none
  | .releaseBuffer r => s.readers[r]?.bind fun rd =>
    match rd.pc with
    | .holding hdr => some (finishRelease Q (callRelease s r rd hdr) r)
    | _ => none

/-! ### Guards -/

section

variable (ok : State → Action → Prop)

/-- The guard holds at the steps of a `release_buffer` call. -/
def ReleaseOk (s : State) (r : Nat) : Prop :=
  ∀ k < 6, ok ((releaseStep Q · r)^[k] s) (.releaseStep r)

/-- The guard holds at the steps of a `poll_buffer` call. -/
def PollOk : Nat → State → Nat → Prop
  | 0, _, _ => True
  | fuel + 1, s, r => ok s (.poll r) ∧ ∀ rd ∈ s.readers[r]?,
    match pollOutcome Q s.mem rd.absReadOffset with
    | .skipPadding | .skipAborted =>
      ReleaseOk Q ok (pollHeader Q s r rd) r ∧
        PollOk fuel (finishRelease Q (pollHeader Q s r rd) r) r
    | _ => True

/-- The guard on atomic steps, along one operation. -/
def OpOk (s : State) : Op → Prop
  | .join => ok s .join
  | .reserve size data => ok s (.reserve size data)
  | .finishClaim _ => True
  | .writeToBuffer b => ok s (.writeToBuffer b)
  | .abortBuffer b => ok s (.abortBuffer b)
  | .pollBuffer r fuel => PollOk Q ok fuel s r
  | .releaseBuffer r => ∀ rd ∈ s.readers[r]?, ∀ hdr, rd.pc = .holding hdr →
    ReleaseOk Q ok (callRelease s r rd hdr) r

section

variable [∀ s a, Decidable (ok s a)]

instance (s : State) (r : Nat) : Decidable (ReleaseOk Q ok s r) := by
  unfold ReleaseOk; infer_instance

instance decidablePollOk : ∀ fuel s r, Decidable (PollOk Q ok fuel s r)
  | 0, _, _ => isTrue trivial
  | fuel + 1, s, r => by
    have ih := decidablePollOk fuel
    unfold PollOk
    refine @instDecidableAnd _ _ inferInstance (@Option.decidableForallMem _ _ (fun rd => ?_) _)
    split <;> infer_instance

theorem ReaderPc.holding_imp_iff (pc : ReaderPc) (P : Nat → Prop) :
    (match pc with | .holding hdr => P hdr | _ => True) ↔ ∀ hdr, pc = .holding hdr → P hdr := by
  cases pc <;> simp

instance (s : State) (op : Op) : Decidable (OpOk Q ok s op) := by
  apply Op.casesOn (motive := fun op => Decidable (OpOk Q ok s op)) op
  case releaseBuffer =>
    intro r
    refine @Option.decidableForallMem _ _ (fun rd => ?_) _
    refine @decidable_of_iff _ _ (rd.pc.holding_imp_iff
      fun hdr => ReleaseOk Q ok (callRelease s r rd hdr) r) ?_
    exact ReaderPc.casesOn (motive := fun pc => Decidable (match pc with
      | .holding hdr => ReleaseOk Q ok (callRelease s r rd hdr) r
      | _ => True)) rd.pc instDecidableTrue instDecidableTrue instDecidableTrue
      (fun _ => inferInstance) (fun _ => instDecidableTrue) (fun _ _ _ => instDecidableTrue)
      instDecidableTrue instDecidableTrue
  all_goals intros; dsimp only [OpOk]; infer_instance

end

end

section

variable {Q} {ok : State → Action → Prop} {s t : State} {b : Block} {r : Nat} {rd : Reader}

/-- The guard says nothing about what a writer does on its way through a claim. -/
structure UnguardedClaims (ok : State → Action → Prop) : Prop where
  loadReadOffset : ∀ s b, ok s (.loadReadOffset b)
  storeHeader : ∀ s b, ok s (.storeHeader b)
  finishSkip : ∀ s b, ok s (.finishSkip b)

/-- Nor about the call of a release. -/
structure Unguarded (ok : State → Action → Prop) : Prop extends UnguardedClaims ok where
  callRelease : ∀ s r rd hdr, s.readers[r]? = some rd → rd.pc = .holding hdr →
    ok s (.callRelease r)

theorem reach_releaseStep (hok : ok s (.releaseStep r)) :
    Reach (step Q) ok s (releaseStep Q s r) := by
  cases hrd : s.readers[r]? with
  | none =>
    simp only [releaseStep, hrd]
    exact .refl s
  | some rd =>
    by_cases hpc : rd.pc.isReleasing = true
    · exact (Reach.refl s).next hok (by simp [step, hrd, hpc])
    · have hsame : releaseStep Q s r = s := by
        simp only [releaseStep, hrd]
        cases hcase : rd.pc <;> simp [hcase, ReaderPc.isReleasing] at hpc <;> rfl
      rw [hsame]
      exact .refl s

theorem reach_finishRelease {u : State} (hreach : Reach (step Q) ok u s)
    (hok : ReleaseOk Q ok s r) : Reach (step Q) ok u (finishRelease Q s r) := by
  have hsteps : ∀ k ≤ 6, Reach (step Q) ok u ((releaseStep Q · r)^[k] s) := by
    intro k hk
    induction k with
    | zero => exact hreach
    | succ k ih =>
      rw [Function.iterate_succ_apply']
      exact (ih (by omega)).trans (reach_releaseStep (hok k (by omega)))
  exact hsteps 6 (Nat.le_refl 6)

/-! ### Where a reader is between two operations -/

def ReaderPc.stepsLeft : ReaderPc → Nat
  | .releaseCalled _ => 6
  | .clearing .body _ _ => 5
  | .clearing .size _ _ => 4
  | .clearing .type _ _ => 3
  | .clearing .flag _ _ => 2
  | .clearing .advance _ _ => 1
  | _ => 0

/-- The reader is at most `n` steps from the end of a `release_buffer` call. -/
structure Reader.Releasing (rd : Reader) (n : Nat) : Prop where
  staying : rd.leaveOffset = none
  pc : rd.pc = .idle ∨ rd.pc.isReleasing = true
  stepsLeft : rd.pc.stepsLeft ≤ n

theorem Reader.Releasing.idle (h : rd.Releasing 0) : rd.pc = .idle := by
  rcases h.pc with hidle | hreleasing
  · exact hidle
  · have hleft := h.stepsLeft
    cases hpc : rd.pc with
    | releaseCalled hdr => simp [hpc, ReaderPc.stepsLeft] at hleft
    | clearing step hdr total => cases step <;> simp [hpc, ReaderPc.stepsLeft] at hleft
    | _ => simp [hpc, ReaderPc.isReleasing] at hreleasing

theorem Reader.Releasing.afterRelease {n : Nat} (h : rd.Releasing n) :
    rd.afterRelease = .idle := by
  rw [Reader.afterRelease, h.staying]
  rfl

theorem Reader.Releasing.step {n : Nat} (h : rd.Releasing n) (hrd : s.readers[r]? = some rd) :
    ∃ rd', (releaseStep Q s r).readers = s.readers.set r rd' ∧ rd'.Releasing (n - 1) := by
  have hleft := h.stepsLeft
  have hafter := h.afterRelease
  simp only [releaseStep, hrd]
  cases hpc : rd.pc with
  | idle =>
    refine ⟨rd, ?_, h.staying, h.pc, ?_⟩
    · obtain ⟨hlt, hget⟩ := List.getElem?_eq_some_iff.mp hrd
      rw [← hget, List.set_getElem_self]
    · simp [hpc, ReaderPc.stepsLeft]
  | releaseCalled hdr =>
    rw [hpc] at hleft
    refine ⟨_, rfl, h.staying, ?_, ?_⟩
    · simp only [hafter]
      split
      · exact Or.inr rfl
      · exact Or.inl rfl
    · simp only [hafter]
      simp only [ReaderPc.stepsLeft] at hleft
      split
      · simp only [ReaderPc.stepsLeft]
        omega
      · simp only [ReaderPc.stepsLeft]
        omega
  | clearing step hdr total =>
    rw [hpc] at hleft
    cases step with
    | body => exact ⟨_, rfl, h.staying, Or.inr rfl, Nat.sub_le_sub_right hleft 1⟩
    | size => exact ⟨_, rfl, h.staying, Or.inr rfl, Nat.sub_le_sub_right hleft 1⟩
    | type => exact ⟨_, rfl, h.staying, Or.inr rfl, Nat.sub_le_sub_right hleft 1⟩
    | flag => exact ⟨_, rfl, h.staying, Or.inr rfl, Nat.sub_le_sub_right hleft 1⟩
    | advance =>
      refine ⟨_, rfl, h.staying, Or.inl hafter, ?_⟩
      simp only [hafter, ReaderPc.stepsLeft]
      omega
  | _ => simpa [hpc, ReaderPc.isReleasing] using h.pc

/-- At the end of a `release_buffer` call the reader is idle, and the others are
where they were. -/
theorem finishRelease_readers (hrd : s.readers[r]? = some rd) (h : rd.Releasing 6) :
    ∃ rd', (finishRelease Q s r).readers = s.readers.set r rd' ∧ rd'.leaveOffset = none ∧
      rd'.pc = .idle := by
  have hlt := lt_of_getElem? hrd
  have hsteps : ∀ k ≤ 6, ∃ rd', ((releaseStep Q · r)^[k] s).readers = s.readers.set r rd' ∧
      rd'.Releasing (6 - k) := by
    intro k hk
    induction k with
    | zero =>
      refine ⟨rd, ?_, h⟩
      obtain ⟨hlt, hget⟩ := List.getElem?_eq_some_iff.mp hrd
      rw [← hget, List.set_getElem_self]
      rfl
    | succ k ih =>
      obtain ⟨rd', hreaders, hrel⟩ := ih (by omega)
      have hrd' : ((releaseStep Q · r)^[k] s).readers[r]? = some rd' := by
        rw [hreaders]
        simp [hlt]
      obtain ⟨rd'', hnext, hrel'⟩ := hrel.step (Q := Q) hrd'
      refine ⟨rd'', ?_, by rwa [Nat.sub_sub] at hrel'⟩
      rw [Function.iterate_succ_apply', hnext, hreaders, List.set_set]
  obtain ⟨rd', hreaders, hrel⟩ := hsteps 6 (Nat.le_refl 6)
  exact ⟨rd', hreaders, hrel.staying, hrel.idle⟩

/-- Between two operations readers are idle or hold a wrapper, and none closed. -/
def State.Quiet (s : State) : Prop :=
  ∀ rd ∈ s.readers, rd.leaveOffset = none ∧ (rd.pc = .idle ∨ ∃ hdr, rd.pc = .holding hdr)

theorem State.Quiet.set (hq : s.Quiet) {rd' : Reader} (hreaders : t.readers = s.readers.set r rd')
    (hstay : rd'.leaveOffset = none) (hpc : rd'.pc = .idle ∨ ∃ hdr, rd'.pc = .holding hdr) :
    t.Quiet := by
  intro x hx
  rw [hreaders] at hx
  rcases List.mem_or_eq_of_mem_set hx with hold | rfl
  · exact hq x hold
  · exact ⟨hstay, hpc⟩

theorem Reader.releasing_of_called (hstay : rd.leaveOffset = none) (hdr : Nat) :
    ({ rd with pc := .releaseCalled hdr } : Reader).Releasing 6 :=
  ⟨hstay, Or.inr rfl, Nat.le_refl 6⟩

/-- The readers after a call of `release_buffer` from start to end. -/
theorem finishRelease_called (hrd : s.readers[r]? = some rd) (hstay : rd.leaveOffset = none)
    {hdr : Nat} (hreaders : t.readers = s.readers.set r { rd with pc := .releaseCalled hdr }) :
    ∃ rd', (finishRelease Q t r).readers = s.readers.set r rd' ∧ rd'.leaveOffset = none ∧
      rd'.pc = .idle := by
  have hlt := lt_of_getElem? hrd
  have hrd' : t.readers[r]? = some { rd with pc := .releaseCalled hdr } := by
    rw [hreaders]
    simp [hlt]
  obtain ⟨rd', hfinal, hstay', hpc'⟩ :=
    finishRelease_readers (Q := Q) hrd' (Reader.releasing_of_called hstay hdr)
  exact ⟨rd', by rw [hfinal, hreaders, List.set_set], hstay', hpc'⟩

/-! ### Operations are rows of atomic steps -/

theorem reach_pollBuffer {u : State} {fuel : Nat} (hreach : Reach (step Q) ok u s)
    (hq : s.Quiet) (hidle : ∀ rd ∈ s.readers[r]?, rd.pc = .idle) (hok : PollOk Q ok fuel s r)
    (hpoll : pollBuffer Q fuel s r = some t) : Reach (step Q) ok u t ∧ t.Quiet := by
  induction fuel generalizing s with
  | zero => cases hpoll
  | succ fuel ih =>
    obtain ⟨rd, hrd, hpoll⟩ := Option.bind_eq_some_iff.mp hpoll
    have hpc := hidle rd hrd
    have hstay := (hq rd (List.mem_of_getElem? hrd)).1
    obtain ⟨hfirst, hrest⟩ := hok
    have hrest := hrest rd hrd
    have hstep : step Q s (.poll r) = some (pollHeader Q s r rd) := by simp [step, hrd, hpc]
    have hnext := hreach.next hfirst hstep
    -- one level that skips its block, then the call of `poll_buffer` on the next
    have hskip : (pollHeader Q s r rd).readers =
        s.readers.set r { rd with pc := .releaseCalled (rd.absReadOffset % Q.bytes) } →
        ReleaseOk Q ok (pollHeader Q s r rd) r ∧
          PollOk Q ok fuel (finishRelease Q (pollHeader Q s r rd) r) r →
        pollBuffer Q fuel (finishRelease Q (pollHeader Q s r rd) r) r = some t →
        Reach (step Q) ok u t ∧ t.Quiet := by
      intro hreaders hok' hpoll'
      obtain ⟨rd', hfinal, hstay', hpc'⟩ := finishRelease_called (Q := Q) hrd hstay hreaders
      refine ih (reach_finishRelease hnext hok'.1) (hq.set hfinal hstay' (Or.inl hpc')) ?_
        hok'.2 hpoll'
      intro x hx
      rw [hfinal, List.getElem?_set_self (lt_of_getElem? hrd), Option.mem_some_iff] at hx
      subst hx
      exact hpc'
    cases hout : pollOutcome Q s.mem rd.absReadOffset with
    | nullopt =>
      simp only [hout, Option.some.injEq] at hpoll
      subst hpoll
      exact ⟨hreach, hq⟩
    | wrapper =>
      simp only [hout, Option.some.injEq] at hpoll
      subst hpoll
      refine ⟨hnext, ?_⟩
      simp only [pollHeader, hout]
      exact hq.set rfl hstay (Or.inr ⟨_, rfl⟩)
    | skipPadding =>
      simp only [hout] at hpoll hrest
      exact hskip (by simp only [pollHeader, hout]; rfl) hrest hpoll
    | skipAborted =>
      simp only [hout] at hpoll hrest
      exact hskip (by simp only [pollHeader, hout]; rfl) hrest hpoll

theorem PollOk.of_forall {fuel : Nat} (hpoll : ∀ s r, ok s (.poll r))
    (hrelease : ∀ s r, ok s (.releaseStep r)) : PollOk Q ok fuel s r := by
  induction fuel generalizing s with
  | zero => trivial
  | succ fuel ih =>
    refine ⟨hpoll s r, ?_⟩
    intro rd _
    split
    · exact ⟨fun _ _ => hrelease _ r, ih⟩
    · exact ⟨fun _ _ => hrelease _ r, ih⟩
    · trivial

/-- A header store moves the writer on by one step. -/
theorem reach_storeHeader {u : State} (hfree : UnguardedClaims ok) (hreach : Reach (step Q) ok u s)
    (hb : b ∈ s.log) {stage : Stage} (stage' : Stage) (hstage : s.stage b.offset = stage)
    (hwriting : stage.isWritingHeader = true)
    (hnext : (storeHeader Q s b).stage b.offset = stage') :
    Reach (step Q) ok u (storeHeader Q s b) ∧ b ∈ (storeHeader Q s b).log ∧
      (storeHeader Q s b).stage b.offset = stage' := by
  subst hstage
  refine ⟨?_, ?_, hnext⟩
  · exact hreach.next (hfree.storeHeader s b) (by simp [step, hb, hwriting])
  · obtain ⟨_, _, heq, -⟩ := storeHeader_eq (Q := Q) hwriting
    rw [heq]
    exact hb

theorem reach_finishClaim {u : State} (hfree : UnguardedClaims ok)
    (hreach : Reach (step Q) ok u s) (hb : s.AtStage b .waiting) :
    Reach (step Q) ok u (finishClaim Q s b) := by
  have hload : step Q s (.loadReadOffset b) = some (loadReadOffset Q s b) := by simp [step, hb]
  have h0 := hreach.next (hfree.loadReadOffset s b) hload
  simp only [finishClaim]
  split
  · exact hreach
  · rename_i hwait
    have hstart : loadReadOffset Q s b = s.setStage b .admitted := by
      simp only [loadReadOffset, hwait]
      rfl
    rw [hstart] at h0 ⊢
    generalize hs0 : s.setStage b .admitted = s0 at h0
    have hlog : b ∈ s0.log := by subst hs0; exact hb.1
    have hstage : s0.stage b.offset = .admitted := by
      subst hs0
      exact Function.update_self _ _ _
    obtain ⟨h1, hlog1, hstage1⟩ := reach_storeHeader hfree h0 hlog .offsetStored
      hstage rfl (by simp [storeHeader, hstage, State.setStage])
    obtain ⟨h2, hlog2, hstage2⟩ := reach_storeHeader hfree h1 hlog1 .sizeStored
      hstage1 rfl (by rw [storeHeader, hstage1]; simp [State.setStage])
    obtain ⟨h3, hlog3, hstage3⟩ := reach_storeHeader hfree h2 hlog2 .typeStored
      hstage2 rfl (by rw [storeHeader, hstage2]; simp [State.setStage])
    obtain ⟨h4, hlog4, hstage4⟩ := reach_storeHeader hfree h3 hlog3 .claimed
      hstage3 rfl (by rw [storeHeader, hstage3]; simp [State.setStage])
    have hiterate : (storeHeader Q · b)^[4] s0 =
        storeHeader Q (storeHeader Q (storeHeader Q (storeHeader Q s0 b) b) b) b := rfl
    rw [hiterate]
    split
    · rename_i hpad
      refine h4.next (hfree.finishSkip _ b) ?_
      simp [step, State.AtStage, hlog4, hstage4, hpad]
    · exact h4

theorem storeHeader_readers : (storeHeader Q s b).readers = s.readers := by
  simp only [storeHeader]
  split <;> rfl

theorem loadReadOffset_readers : (loadReadOffset Q s b).readers = s.readers := by
  simp only [loadReadOffset]
  split <;> rfl

theorem finishSkip_readers : (finishSkip Q s b).readers = s.readers := rfl

theorem finishClaim_readers : (finishClaim Q s b).readers = s.readers := by
  have hstores : ∀ k u, ((storeHeader Q · b)^[k] u).readers = u.readers := by
    intro k u
    induction k with
    | zero => rfl
    | succ k ih => rw [Function.iterate_succ_apply', storeHeader_readers, ih]
  simp only [finishClaim]
  split
  · rfl
  · split
    · rw [finishSkip_readers, hstores, loadReadOffset_readers]
    · rw [hstores, loadReadOffset_readers]

/-- One operation, as atomic steps. -/
theorem reach_opStep (hfree : Unguarded ok) (hq : s.Quiet) {op : Op} (hok : OpOk Q ok s op)
    (hop : opStep Q s op = some t) : Reach (step Q) ok s t ∧ t.Quiet := by
  have hwriter : ∀ {a : Action}, ok s a → step Q s a = some t → t.readers = s.readers →
      Reach (step Q) ok s t ∧ t.Quiet := by
    intro a ha hstep hreaders
    refine ⟨(Reach.refl s).next ha hstep, ?_⟩
    rw [State.Quiet, hreaders]
    exact hq
  cases op with
  | join =>
    cases hop
    refine ⟨(Reach.refl s).next hok rfl, ?_⟩
    intro rd hrd
    rw [join_readers, List.mem_append, List.mem_singleton] at hrd
    rcases hrd with hold | rfl
    · exact hq rd hold
    · exact ⟨rfl, Or.inl rfl⟩
  | reserve size data =>
    obtain ⟨-, rfl⟩ := eq_of_ite_some hop
    exact hwriter hok hop rfl
  | finishClaim b =>
    obtain ⟨hb, rfl⟩ := eq_of_ite_some hop
    refine ⟨reach_finishClaim hfree.toUnguardedClaims (Reach.refl s) hb, ?_⟩
    rw [State.Quiet, finishClaim_readers]
    exact hq
  | writeToBuffer b =>
    obtain ⟨-, rfl⟩ := eq_of_ite_some hop
    exact hwriter hok hop rfl
  | abortBuffer b =>
    obtain ⟨-, rfl⟩ := eq_of_ite_some hop
    exact hwriter hok hop rfl
  | pollBuffer r fuel =>
    obtain ⟨rd, hrd, hop⟩ := Option.bind_eq_some_iff.mp hop
    split at hop
    · rename_i hpc
      refine reach_pollBuffer (Reach.refl s) hq ?_ hok hop
      intro x hx
      rw [hrd, Option.mem_some_iff] at hx
      rwa [← hx]
    · cases hop
  | releaseBuffer r =>
    obtain ⟨rd, hrd, hop⟩ := Option.bind_eq_some_iff.mp hop
    cases hpc : rd.pc with
    | holding hdr =>
      simp only [hpc, Option.some.injEq] at hop
      subst hop
      have hstay := (hq rd (List.mem_of_getElem? hrd)).1
      have hcall : step Q s (.callRelease r) = some (callRelease s r rd hdr) := by
        simp [step, hrd, hpc]
      have hnext := (Reach.refl s).next (hfree.callRelease s r rd hdr hrd hpc) hcall
      obtain ⟨rd', hfinal, hstay', hpc'⟩ :=
        finishRelease_called (Q := Q) (t := callRelease s r rd hdr) hrd hstay rfl
      exact ⟨reach_finishRelease hnext (hok rd hrd hdr hpc),
        hq.set hfinal hstay' (Or.inl hpc')⟩
    | _ => simp [hpc] at hop

/-- **Every run of operations is a run of atomic steps.** -/
theorem reach_of_operations (hfree : Unguarded ok)
    (hreach : Reach (opStep Q) (OpOk Q ok) State.init s) :
    Reach (step Q) ok State.init s ∧ s.Quiet := by
  obtain ⟨t, hatomic, rfl, hq⟩ : ∃ t, Reach (step Q) ok State.init t ∧ s = t ∧ s.Quiet := by
    refine hreach.simulation (R := fun s t => s = t ∧ s.Quiet) ⟨rfl, ?_⟩ ?_
    · simp [State.Quiet, State.init]
    · rintro s op t _ ⟨rfl, hq⟩ hok hop
      obtain ⟨hnext, hq'⟩ := reach_opStep hfree hq hok hop
      exact ⟨t, hnext, rfl, hq'⟩
  exact ⟨hatomic, hq⟩

end

end MockExchange
