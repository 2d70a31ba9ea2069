import MockExchange.Invariant

/-!
# What a step can do

`Taken Q s a t` is the inversion of `step Q s a = some t`. `Change Q s a t` forgets
which step it was and keeps its effect: a new reader, a new reservation, a
writer's step on its own block, a reader that only moved on inside its program,
a `fetch_sub`, a clearing step, or a leave. Invariants that do not look at the
ring are proved over `Change`.
-/

namespace MockExchange

open ByteMemory MessageHeader

section

variable {Q : RingSize} {s t : State} {r : Nat} {rd : Reader}

/-- The steps with their preconditions and outcomes. -/
inductive Taken (Q : RingSize) (s : State) : Action → State → Prop where
  | join : Taken Q s .join (join s)
  | reserve {size : Nat} {data : List UInt8} (hpos : 0 < size) (hle : size ≤ Q.bytes - 18) :
      Taken Q s (.reserve size data) (reserve Q s size data)
  | loadReadOffset {b : Block} (hb : s.AtStage b .waiting) :
      Taken Q s (.loadReadOffset b) (loadReadOffset Q s b)
  | storeHeader {b : Block} (hb : b ∈ s.log) (hst : (s.stage b.offset).isWritingHeader = true) :
      Taken Q s (.storeHeader b) (storeHeader Q s b)
  | finishSkip {b : Block} (hb : s.AtStage b .claimed) (hpad : b.isPadding Q = true) :
      Taken Q s (.finishSkip b) (finishSkip Q s b)
  | writeToBuffer {b : Block} (hb : s.AtStage b .claimed) (hpad : b.isPadding Q = false) :
      Taken Q s (.writeToBuffer b) (writeToBuffer Q s b)
  | abortBuffer {b : Block} (hb : s.AtStage b .claimed) (hpad : b.isPadding Q = false) :
      Taken Q s (.abortBuffer b) (abortBuffer Q s b)
  | poll {r : Nat} {rd : Reader} (hrd : s.readers[r]? = some rd) (hpc : rd.pc = .idle) :
      Taken Q s (.poll r) (pollHeader Q s r rd)
  | loadCommitFlag {r : Nat} {rd : Reader} (hrd : s.readers[r]? = some rd)
      (hpc : rd.pc = .idle) : Taken Q s (.loadCommitFlag r) (loadCommitFlag Q s r rd)
  | loadAbsOffset {r : Nat} {rd : Reader} (hrd : s.readers[r]? = some rd)
      (hpc : rd.pc = .flagLoaded) : Taken Q s (.loadAbsOffset r) (loadAbsOffset Q s r rd)
  | loadSizeAndType {r : Nat} {rd : Reader} (hrd : s.readers[r]? = some rd)
      (hpc : rd.pc = .offsetMatched) : Taken Q s (.loadSizeAndType r) (loadSizeAndType Q s r rd)
  | releaseHeld {r hdr : Nat} {rd : Reader} (hrd : s.readers[r]? = some rd)
      (hpc : rd.pc = .holding hdr) : Taken Q s (.callRelease r) (callRelease s r rd hdr)
  | releaseNext {r : Nat} {rd : Reader} (hrd : s.readers[r]? = some rd) (hpc : rd.pc = .idle) :
      Taken Q s (.callRelease r) (callRelease s r rd (rd.absReadOffset % Q.bytes))
  | fetchSub {r hdr : Nat} {rd : Reader} (hrd : s.readers[r]? = some rd)
      (hpc : rd.pc = .releaseCalled hdr) : Taken Q s (.releaseStep r) (fetchSub Q s r rd hdr)
  | clearStep {r hdr total : Nat} {rd : Reader} {step : ClearStep}
      (hrd : s.readers[r]? = some rd) (hpc : rd.pc = .clearing step hdr total) :
      Taken Q s (.releaseStep r) (clearStep s r rd step hdr total)
  | leave {r : Nat} {rd : Reader} (hrd : s.readers[r]? = some rd) (hpc : rd.pc = .idle) :
      Taken Q s (.leave r) (leave s r rd)
  | drain {r e : Nat} {rd : Reader} (hrd : s.readers[r]? = some rd)
      (hleave : rd.leaveOffset = some e) (hpc : rd.pc = .draining) :
      Taken Q s (.drain r) (drain Q s r rd e)

/-- A guarded step that is enabled. -/
theorem eq_of_ite_some {α : Type} {p : Prop} [Decidable p] {x y : α}
    (h : (if p then some x else none) = some y) : p ∧ x = y := by
  split at h
  · rename_i hp
    exact ⟨hp, Option.some.inj h⟩
  · cases h

theorem Taken.of_step {a : Action} (hstep : step Q s a = some t) : Taken Q s a t := by
  cases a with
  | join =>
    cases hstep
    exact .join
  | reserve size data =>
    obtain ⟨⟨hpos, hle⟩, rfl⟩ := eq_of_ite_some hstep
    exact .reserve hpos hle
  | loadReadOffset b =>
    obtain ⟨hb, rfl⟩ := eq_of_ite_some hstep
    exact .loadReadOffset hb
  | storeHeader b =>
    obtain ⟨⟨hb, hst⟩, rfl⟩ := eq_of_ite_some hstep
    exact .storeHeader hb hst
  | finishSkip b =>
    obtain ⟨⟨hb, hpad⟩, rfl⟩ := eq_of_ite_some hstep
    exact .finishSkip hb hpad
  | writeToBuffer b =>
    obtain ⟨⟨hb, hpad⟩, rfl⟩ := eq_of_ite_some hstep
    exact .writeToBuffer hb hpad
  | abortBuffer b =>
    obtain ⟨⟨hb, hpad⟩, rfl⟩ := eq_of_ite_some hstep
    exact .abortBuffer hb hpad
  | poll r =>
    obtain ⟨rd, hrd, hstep⟩ := Option.bind_eq_some_iff.mp hstep
    obtain ⟨hpc, rfl⟩ := eq_of_ite_some hstep
    exact .poll hrd hpc
  | loadCommitFlag r =>
    obtain ⟨rd, hrd, hstep⟩ := Option.bind_eq_some_iff.mp hstep
    obtain ⟨hpc, rfl⟩ := eq_of_ite_some hstep
    exact .loadCommitFlag hrd hpc
  | loadAbsOffset r =>
    obtain ⟨rd, hrd, hstep⟩ := Option.bind_eq_some_iff.mp hstep
    obtain ⟨hpc, rfl⟩ := eq_of_ite_some hstep
    exact .loadAbsOffset hrd hpc
  | loadSizeAndType r =>
    obtain ⟨rd, hrd, hstep⟩ := Option.bind_eq_some_iff.mp hstep
    obtain ⟨hpc, rfl⟩ := eq_of_ite_some hstep
    exact .loadSizeAndType hrd hpc
  | callRelease r =>
    obtain ⟨rd, hrd, hstep⟩ := Option.bind_eq_some_iff.mp hstep
    cases hpc : rd.pc with
    | holding hdr =>
      simp only [hpc, Option.some.injEq] at hstep
      subst hstep
      exact .releaseHeld hrd hpc
    | idle =>
      simp only [hpc, Option.some.injEq] at hstep
      subst hstep
      exact .releaseNext hrd hpc
    | _ => simp [hpc] at hstep
  | releaseStep r =>
    obtain ⟨rd, hrd, hstep⟩ := Option.bind_eq_some_iff.mp hstep
    obtain ⟨hreleasing, rfl⟩ := eq_of_ite_some hstep
    simp only [releaseStep, hrd]
    cases hpc : rd.pc with
    | releaseCalled hdr => exact .fetchSub hrd hpc
    | clearing step hdr total => exact .clearStep hrd hpc
    | _ => simp [hpc, ReaderPc.isReleasing] at hreleasing
  | leave r =>
    obtain ⟨rd, hrd, hstep⟩ := Option.bind_eq_some_iff.mp hstep
    obtain ⟨hpc, rfl⟩ := eq_of_ite_some hstep
    exact .leave hrd hpc
  | drain r =>
    obtain ⟨rd, hrd, hstep⟩ := Option.bind_eq_some_iff.mp hstep
    obtain ⟨e, hleave, hstep⟩ := Option.bind_eq_some_iff.mp hstep
    obtain ⟨hpc, rfl⟩ := eq_of_ite_some hstep
    exact .drain hrd hleave hpc

/-! ### Effects -/

/-- Two states of one reader that passed the same blocks. -/
structure Reader.SameProgress (rd rd' : Reader) : Prop where
  joinOffset : rd'.joinOffset = rd.joinOffset
  absReadOffset : rd'.absReadOffset = rd.absReadOffset
  leaveOffset : rd'.leaveOffset = rd.leaveOffset
  decremented : rd'.decremented = rd.decremented
  closeStart : rd'.closeStart = rd.closeStart

theorem Reader.SameProgress.refl : rd.SameProgress rd := ⟨rfl, rfl, rfl, rfl, rfl⟩

theorem Reader.SameProgress.of_pc (pc : ReaderPc) (received : List (List UInt8)) :
    rd.SameProgress { rd with pc := pc, received := received } :=
  ⟨rfl, rfl, rfl, rfl, rfl⟩

/-- The effect of a step on everything but the ring. -/
inductive Change (Q : RingSize) (s : State) : Action → State → Prop where
  | join : Change Q s .join (join s)
  | reserve {size : Nat} {data : List UInt8} (hpos : 0 < size) (hle : size ≤ Q.bytes - 18) :
      Change Q s (.reserve size data) (reserve Q s size data)
  | write {a : Action} {b : Block} {mem' : Memory} {stage' : Stage} {asserts : Bool}
      (hb : b ∈ s.log) (hunsettled : (s.stage b.offset).settled = false) :
      Change Q s a { s with
        mem := mem', stage := Function.update s.stage b.offset stage', assertsHold := asserts }
  | move {a : Action} {r : Nat} {rd rd' : Reader} {asserts : Bool} (hrd : s.readers[r]? = some rd)
      (hsame : rd.SameProgress rd') :
      Change Q s a { s with readers := s.readers.set r rd', assertsHold := asserts }
  | fetchSub {r hdr : Nat} {rd : Reader} (hrd : s.readers[r]? = some rd)
      (hpc : rd.pc = .releaseCalled hdr) : Change Q s (.releaseStep r) (fetchSub Q s r rd hdr)
  | clearStep {r hdr total : Nat} {rd : Reader} {step : ClearStep}
      (hrd : s.readers[r]? = some rd) (hpc : rd.pc = .clearing step hdr total) :
      Change Q s (.releaseStep r) (clearStep s r rd step hdr total)
  | leave {r : Nat} {rd : Reader} (hrd : s.readers[r]? = some rd) (hpc : rd.pc = .idle) :
      Change Q s (.leave r) (leave s r rd)

/-- A step that changes nothing moves nobody. -/
theorem Change.same {a : Action} (hrd : s.readers[r]? = some rd) : Change Q s a s := by
  have hset : s.readers.set r rd = s.readers := by
    obtain ⟨hlt, hget⟩ := List.getElem?_eq_some_iff.mp hrd
    rw [← hget, List.set_getElem_self]
  have hmove : Change Q s a { s with readers := s.readers.set r rd } := .move hrd .refl
  rwa [hset] at hmove

theorem Change.callRelease {a : Action} (hrd : s.readers[r]? = some rd) (hdr : Nat)
    (asserts : Bool) : Change Q s a (callRelease { s with assertsHold := asserts } r rd hdr) :=
  .move hrd (.of_pc (.releaseCalled hdr) rd.received)

theorem Change.handOut {a : Action} (hrd : s.readers[r]? = some rd) (hdr : Nat)
    (asserts : Bool) : Change Q s a (handOut { s with assertsHold := asserts } r rd hdr) :=
  .move hrd (.of_pc (.holding hdr) _)

theorem Change.pollHeader {a : Action} (hrd : s.readers[r]? = some rd) :
    Change Q s a (pollHeader Q s r rd) := by
  simp only [MockExchange.pollHeader]
  cases pollOutcome Q s.mem rd.absReadOffset with
  | nullopt => exact .same hrd
  | skipPadding => exact .callRelease hrd _ _
  | skipAborted => exact .callRelease hrd _ s.assertsHold
  | wrapper => exact .handOut hrd _ _

theorem Taken.change {a : Action} (h : Taken Q s a t) : Change Q s a t := by
  cases h with
  | join => exact .join
  | reserve hpos hle => exact .reserve hpos hle
  | @loadReadOffset b hb =>
    have hunsettled : (s.stage b.offset).settled = false := by rw [hb.2]; rfl
    simp only [MockExchange.loadReadOffset]
    split
    · have hsame : Change Q s (.loadReadOffset b)
          { s with stage := Function.update s.stage b.offset (s.stage b.offset) } :=
        .write hb.1 hunsettled
      rwa [Function.update_eq_self] at hsame
    · exact .write hb.1 hunsettled
  | @storeHeader b hb hst =>
    simp only [MockExchange.storeHeader]
    cases hstage : s.stage b.offset with
    | admitted => exact .write hb (by rw [hstage]; rfl)
    | offsetStored => exact .write hb (by rw [hstage]; rfl)
    | sizeStored => exact .write hb (by rw [hstage]; rfl)
    | typeStored => exact .write hb (by rw [hstage]; rfl)
    | _ => simp [hstage, Stage.isWritingHeader] at hst
  | finishSkip hb => exact .write hb.1 (by rw [hb.2]; rfl)
  | writeToBuffer hb => exact .write hb.1 (by rw [hb.2]; rfl)
  | abortBuffer hb => exact .write hb.1 (by rw [hb.2]; rfl)
  | poll hrd => exact .pollHeader hrd
  | loadCommitFlag hrd =>
    simp only [MockExchange.loadCommitFlag]
    split
    · exact .move hrd (.of_pc .flagLoaded _)
    · split
      · exact .callRelease hrd _ s.assertsHold
      · exact .same hrd
  | loadAbsOffset hrd => exact .move hrd (.of_pc _ _)
  | loadSizeAndType hrd =>
    simp only [MockExchange.loadSizeAndType]
    split
    · exact .callRelease hrd _ _
    · exact .handOut hrd _ _
  | releaseHeld hrd => exact .callRelease hrd _ s.assertsHold
  | releaseNext hrd => exact .callRelease hrd _ s.assertsHold
  | fetchSub hrd hpc => exact .fetchSub hrd hpc
  | clearStep hrd hpc => exact .clearStep hrd hpc
  | leave hrd hpc => exact .leave hrd hpc
  | drain hrd =>
    simp only [MockExchange.drain]
    split
    · exact .callRelease hrd _ s.assertsHold
    · exact .move hrd (.of_pc .closed _)

/-- The states agree on everything a reader's poll does not write. -/
structure State.SameShared (s t : State) : Prop where
  mem : t.mem = s.mem
  log : t.log = s.log
  stage : t.stage = s.stage
  readOffset : t.readOffset = s.readOffset

/-- The steps of a reader outside the body of `release_buffer`. -/
def Action.isLocal : Action → Bool
  | .poll _ | .loadCommitFlag _ | .loadAbsOffset _ | .loadSizeAndType _ | .callRelease _
  | .drain _ | .join | .leave _ => true
  | _ => false

theorem State.SameShared.refl : s.SameShared s := ⟨rfl, rfl, rfl, rfl⟩

theorem Taken.sameShared {a : Action} (h : Taken Q s a t) (ha : a.isLocal = true) :
    s.SameShared t := by
  cases h with
  | join => exact ⟨rfl, rfl, rfl, rfl⟩
  | @poll r rd =>
    simp only [MockExchange.pollHeader]
    cases pollOutcome Q s.mem rd.absReadOffset with
    | nullopt => exact .refl
    | skipPadding => exact ⟨rfl, rfl, rfl, rfl⟩
    | skipAborted => exact ⟨rfl, rfl, rfl, rfl⟩
    | wrapper => exact ⟨rfl, rfl, rfl, rfl⟩
  | loadCommitFlag =>
    simp only [MockExchange.loadCommitFlag]
    split
    · exact ⟨rfl, rfl, rfl, rfl⟩
    · split
      · exact ⟨rfl, rfl, rfl, rfl⟩
      · exact .refl
  | loadAbsOffset => exact ⟨rfl, rfl, rfl, rfl⟩
  | loadSizeAndType =>
    simp only [MockExchange.loadSizeAndType]
    split
    · exact ⟨rfl, rfl, rfl, rfl⟩
    · exact ⟨rfl, rfl, rfl, rfl⟩
  | releaseHeld => exact ⟨rfl, rfl, rfl, rfl⟩
  | releaseNext => exact ⟨rfl, rfl, rfl, rfl⟩
  | drain =>
    simp only [MockExchange.drain]
    split
    · exact ⟨rfl, rfl, rfl, rfl⟩
    · exact ⟨rfl, rfl, rfl, rfl⟩
  | leave => exact ⟨rfl, rfl, rfl, rfl⟩
  | reserve => cases ha
  | loadReadOffset => cases ha
  | storeHeader => cases ha
  | finishSkip => cases ha
  | writeToBuffer => cases ha
  | abortBuffer => cases ha
  | fetchSub => cases ha
  | clearStep => cases ha

end

end MockExchange
