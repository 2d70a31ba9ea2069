import MockExchange.Operations
import MockExchange.ReaderWrapper

/-!
# Polls of a subscription

`ArchiveSubscription::poll` hands a polled block to the application's handler
and switches on the code it returns. The case of `ABORT` marks the wrapper as
read, so that its destructor would keep the block, and falls through to the
cases behind it, which release the block.
-/

namespace MockExchange

open ByteMemory MessageHeader Transition ListUpdate

inductive FragmentAction where
  | continue
  | abort
deriving DecidableEq, Repr

def FragmentAction.toByte : FragmentAction → UInt8
  | .continue => 0
  | .abort => 1

variable (Q : RingSize)

/-- A whole call of `release_buffer` by reader `r`. -/
def releaseBuffer (r : Nat) (span : Option Nat) (s : State) : State :=
  match s.readers[r]?, span with
  | some rd, some hdr => finishRelease Q (callRelease s r rd hdr) r
  | _, _ => s

/-- The switch of `poll`, without a `break` in it. -/
def switchOn (r : Nat) (code : UInt8) (reader : ReaderWrapper) (s : State) :
    ReaderWrapper × State :=
  let reader := if code = FragmentAction.abort.toByte then reader.markAsRead else reader
  reader.release (releaseBuffer Q r) s

/-- The rest of `poll` after the handler returned `code`: the switch and the end
of the wrapper that `poll_buffer` moved into the optional. -/
def handled (r hdr : Nat) (code : UInt8) (s : State) : State :=
  let (reader, s) := switchOn Q r code (ReaderWrapper.new hdr).moveFrom s
  reader.destruct (releaseBuffer Q r) s

/-- The bytes that the handler is called with. -/
def fragment (s : State) (hdr : Nat) : List UInt8 := payload s.mem hdr (messageSize s.mem hdr)

/-- `ArchiveSubscription::poll`, where `poll_buffer` makes at most `fuel` calls. -/
def subscriptionPoll (fuel : Nat) (handler : List UInt8 → UInt8) (s : State) (r : Nat) :
    Option State :=
  (pollBuffer Q fuel s r).map fun s =>
    match s.readers[r]?.map Reader.pc with
    | some (.holding hdr) => handled Q r hdr (handler (fragment s hdr)) s
    | _ => s

/-- Reader `r` has the block at `hdr`, and its handler is about to be called. -/
def State.AtHandler (s : State) (r hdr : Nat) : Prop :=
  ∃ rd, s.readers[r]? = some rd ∧ rd.pc = .holding hdr

/-- The position of reader `r`, the block at `hdr` and `read_offset` in `t` are
those of `s`. -/
structure SameBlock (s t : State) (r hdr : Nat) : Prop where
  absReadOffset : t.readers[r]?.map Reader.absReadOffset = s.readers[r]?.map Reader.absReadOffset
  numReaders : MessageHeader.numReaders t.mem hdr = MessageHeader.numReaders s.mem hdr
  commitFlag : MessageHeader.commitFlag t.mem hdr = MessageHeader.commitFlag s.mem hdr
  messageSize : MessageHeader.messageSize t.mem hdr = MessageHeader.messageSize s.mem hdr
  payload : fragment t hdr = fragment s hdr
  readOffset : t.readOffset = s.readOffset

/-- The state in which the handler is called again, after it returned `ABORT`
`n` times. The poll finds the block at once, so `poll_buffer` makes one call. -/
def redelivery (r hdr : Nat) (s : State) : Nat → Option State
  | 0 => some s
  | n + 1 => (redelivery r hdr s n).bind fun t =>
    pollBuffer Q 1 (handled Q r hdr FragmentAction.abort.toByte t) r

/-- The handler may return `ABORT` any number of times: it is called with the
block every time, and the first other code releases the block once. -/
def Redelivers (r hdr : Nat) (s : State) : Prop :=
  ∀ n, ∃ t, redelivery Q r hdr s n = some t ∧ t.AtHandler r hdr ∧ SameBlock s t r hdr ∧
    SameBlock s (handled Q r hdr FragmentAction.abort.toByte t) r hdr ∧
    ∀ code ≠ FragmentAction.abort.toByte,
      (handled Q r hdr code t).readers[r]?.map Reader.decremented =
        s.readers[r]?.map fun rd => rd.decremented ++ [absOffset s.mem hdr]

section

variable {Q} {s t : State} {r hdr fuel : Nat} {rd : Reader} {code : UInt8}

/-- Whatever the handler returns, the block is released. -/
theorem handled_eq (r hdr : Nat) (code : UInt8) (s : State) :
    handled Q r hdr code s = releaseBuffer Q r (some hdr) s := by
  simp only [handled, switchOn, ReaderWrapper.destruct, ReaderWrapper.release, if_true]
  split <;> rfl

/-- The steps of `release_buffer` behind the `fetch_sub` leave the reader's
offset as it is. -/
theorem releaseStep_absReadOffset (hrd : s.readers[r]? = some rd)
    (hpc : ∀ hdr, rd.pc ≠ .releaseCalled hdr) :
    ∃ rd', (releaseStep Q s r).readers[r]? = some rd' ∧
      rd'.absReadOffset = rd.absReadOffset ∧ ∀ hdr, rd'.pc ≠ .releaseCalled hdr := by
  have hlt := lt_of_getElem? hrd
  have hafter : ∀ hdr, rd.afterRelease ≠ .releaseCalled hdr := by
    intro hdr
    unfold Reader.afterRelease
    split <;> simp
  simp only [releaseStep, hrd]
  cases hcase : rd.pc with
  | releaseCalled hdr => exact absurd hcase (hpc hdr)
  | clearing step hdr total =>
    cases step with
    | advance => exact ⟨_, List.getElem?_set_self hlt, rfl, hafter⟩
    | _ => exact ⟨_, List.getElem?_set_self hlt, rfl, by simp⟩
  | _ => exact ⟨rd, hrd, rfl, hpc⟩

theorem fetchSub_absReadOffset (hrd : s.readers[r]? = some rd) (hdr : Nat) :
    ∃ rd', (fetchSub Q s r rd hdr).readers[r]? = some rd' ∧
      rd'.absReadOffset = add64 rd.absReadOffset (messageSize s.mem hdr + sizeofMessageHeader) ∧
      ∀ hdr, rd'.pc ≠ .releaseCalled hdr := by
  refine ⟨_, List.getElem?_set_self (lt_of_getElem? hrd), rfl, ?_⟩
  intro hdr
  unfold Reader.afterRelease
  split
  · simp
  · split <;> simp

theorem finishRelease_absReadOffset (hrd : s.readers[r]? = some rd) (hdr : Nat) :
    (finishRelease Q (callRelease s r rd hdr) r).readers[r]?.map Reader.absReadOffset =
      some (add64 rd.absReadOffset (messageSize s.mem hdr + sizeofMessageHeader)) := by
  have hlt := lt_of_getElem? hrd
  let called : Reader := { rd with pc := .releaseCalled hdr }
  have hcalled : (callRelease s r rd hdr).readers[r]? = some called :=
    List.getElem?_set_self hlt
  have hsteps : ∀ k, ∃ rd', ((releaseStep Q · r)^[k + 1] (callRelease s r rd hdr)).readers[r]? =
        some rd' ∧
      rd'.absReadOffset =
        add64 rd.absReadOffset (messageSize s.mem hdr + sizeofMessageHeader) ∧
      ∀ hdr, rd'.pc ≠ .releaseCalled hdr := by
    intro k
    induction k with
    | zero =>
      rw [Function.iterate_one]
      simp only [releaseStep, hcalled]
      exact fetchSub_absReadOffset hcalled hdr
    | succ k ih =>
      obtain ⟨rd', hrd', hoffset, hpc⟩ := ih
      obtain ⟨rd'', hrd'', hoffset', hpc'⟩ := releaseStep_absReadOffset (Q := Q) hrd' hpc
      rw [Function.iterate_succ_apply']
      exact ⟨rd'', hrd'', hoffset'.trans hoffset, hpc'⟩
  obtain ⟨rd', hrd', hoffset, -⟩ := hsteps 5
  rw [finishRelease, hrd', Option.map_some, hoffset]

/-- A release moves the reader on, by a header at least. -/
theorem add64_message_ne (offset hdr : Nat) (m : Memory) :
    add64 offset (messageSize m hdr + sizeofMessageHeader) ≠ offset := by
  have hsize : messageSize m hdr < 256 ^ 4 := Memory.load_lt
  unfold add64 sizeofMessageHeader
  omega

theorem State.AtHandler.not_redelivers (hheld : t.AtHandler r hdr) : ¬ Redelivers Q r hdr t := by
  intro hredelivers
  obtain ⟨rd, hrd, hpc⟩ := hheld
  obtain ⟨u, hu, -, -, hsame, -⟩ := hredelivers 0
  cases hu
  have hoffset := hsame.absReadOffset
  rw [handled_eq] at hoffset
  simp only [releaseBuffer, hrd] at hoffset
  rw [finishRelease_absReadOffset hrd, Option.map_some, Option.some.injEq] at hoffset
  exact add64_message_ne _ hdr t.mem hoffset

theorem subscriptionPoll_eq (hpoll : pollBuffer Q fuel s r = some t) (hheld : t.AtHandler r hdr)
    (handler : List UInt8 → UInt8) :
    subscriptionPoll Q fuel handler s r = some (releaseBuffer Q r (some hdr) t) := by
  obtain ⟨rd, hrd, hpc⟩ := hheld
  simp only [subscriptionPoll, hpoll, Option.map_some, hrd, hpc, handled_eq]

/-- Whatever the handler returns, `ABORT` as well, has the effect of `CONTINUE`,
and no block is ever delivered again. -/
theorem abort_not_redelivered (hpoll : pollBuffer Q fuel s r = some t)
    (hheld : t.AtHandler r hdr) (handler : List UInt8 → UInt8) :
    subscriptionPoll Q fuel handler s r =
        subscriptionPoll Q fuel (fun _ => FragmentAction.continue.toByte) s r ∧
      ¬ Redelivers Q r hdr t := by
  refine ⟨?_, hheld.not_redelivers⟩
  rw [subscriptionPoll_eq hpoll hheld, subscriptionPoll_eq hpoll hheld]

end

/-- A message of one byte is there for the only reader. -/
theorem exists_polled_message : ∃ s t : State,
    Reach (opStep .smallest) (OpOk .smallest fun _ _ => True) State.init s ∧
      pollBuffer .smallest 1 s 0 = some t ∧ t.AtHandler 0 0 ∧ fragment t 0 = [7] ∧
      t.readOffset = 0 ∧ ((subscriptionPoll .smallest 1 (fun _ => 1) s 0).map
        fun u => (u.readOffset, commitFlag u.mem 0)) = some (19, 0) := by
  let b : Block := ⟨0, 19, 1, 1, [7]⟩
  let ops : List Op := [.join, .reserve 1 [7], .finishClaim b, .writeToBuffer b]
  have hexec : (exec (opStep .smallest) (OpOk .smallest fun _ _ => True) State.init ops).any
      (fun s => (pollBuffer .smallest 1 s 0).any fun t =>
        decide (t.readers.map Reader.pc = [.holding 0] ∧ fragment t 0 = [7] ∧ t.readOffset = 0 ∧
          (subscriptionPoll .smallest 1 (fun _ => 1) s 0).map
            (fun u => (u.readOffset, commitFlag u.mem 0)) = some (19, 0))) = true := by
    decide +kernel
  obtain ⟨s, hrun, hs⟩ := exists_run_of_exec hexec
  cases hpoll : pollBuffer .smallest 1 s 0 with
  | none => simp [hpoll] at hs
  | some t =>
    rw [hpoll, Option.any_some] at hs
    obtain ⟨hpcs, hfragment, hoffset, hafter⟩ := of_decide_eq_true hs
    refine ⟨s, t, ⟨ops, hrun⟩, hpoll, ?_, hfragment, hoffset, hafter⟩
    cases hreaders : t.readers with
    | nil => simp [hreaders] at hpcs
    | cons rd readers =>
      refine ⟨rd, by simp [hreaders], ?_⟩
      simp only [hreaders, List.map_cons, List.cons.injEq] at hpcs
      exact hpcs.1

theorem abort_not_redelivered_one_reader : ∃ s t : State,
    pollBuffer .smallest 1 s 0 = some t ∧
      subscriptionPoll .smallest 1 (fun _ => FragmentAction.abort.toByte) s 0 =
        subscriptionPoll .smallest 1 (fun _ => FragmentAction.continue.toByte) s 0 ∧
      ¬ Redelivers .smallest 0 0 t := by
  obtain ⟨s, t, -, hpoll, hheld, -⟩ := exists_polled_message
  have habort := abort_not_redelivered hpoll hheld fun _ => FragmentAction.abort.toByte
  exact ⟨s, t, hpoll, habort.1, habort.2⟩

/-- `ABORT` for the message: `read_offset` moves on and the flag is cleared. -/
theorem abort_released_one_reader : ∃ s t : State,
    Reach (opStep .smallest) (OpOk .smallest fun _ _ => True) State.init s ∧
      pollBuffer .smallest 1 s 0 = some t ∧ t.AtHandler 0 0 ∧ t.readOffset = 0 ∧
      ((subscriptionPoll .smallest 1 (fun _ => FragmentAction.abort.toByte) s 0).map
        fun u => (u.readOffset, commitFlag u.mem 0)) = some (19, 0) ∧
      ¬ Redelivers .smallest 0 0 t := by
  obtain ⟨s, t, hreach, hpoll, hheld, -, hoffset, hafter⟩ := exists_polled_message
  exact ⟨s, t, hreach, hpoll, hheld, hoffset, hafter, hheld.not_redelivers⟩

end MockExchange
