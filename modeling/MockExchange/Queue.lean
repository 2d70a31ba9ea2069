import MockExchange.Layout
import MockExchange.PackedWord

/-!
# The shared queue and its atomic steps

One state holds the shared memory and what every attached agent keeps to
itself. The steps are the atomic accesses of `ipc_queue.cpp` in program order:
a writer reserves, spins on `read_offset`, stores the header field by field,
writes and commits; a reader joins, polls, releases and leaves.

Some fields only record history, for stating properties: the reservations in
order (`log`), how far each writer got (`stage`), what each reader was handed
(`received`) and which headers it decremented (`decremented`). No step reads
them to decide what to do. A writer's claim is identified by its reservation,
which is what its wrapper's span points at, so any number of writers may hold
any number of claims. `message_count`, `read_message_cnt` and
`last_cleared_abs_offset` are written and never read, and are left out.
-/

namespace MockExchange

open ByteMemory MessageHeader UnpackedReadersAndWriterOffset

/-! ### State -/

/-- How far the writer of a reservation got: in the wait loop, past it, past
each header store, returned from `claim_buffer`, and past `commit_buffer` or
`abort_buffer`. -/
inductive Stage where
  | waiting
  | admitted
  | offsetStored
  | sizeStored
  | typeStored
  | claimed
  | committed
  | aborted
deriving DecidableEq, Repr

/-- What is left of `release_buffer` for the reader that saw `prev_count <= 1`. -/
inductive ClearStep where
  | body
  | size
  | type
  | flag
  | advance
deriving DecidableEq, Repr

/-- Where a reader is between two of its atomic steps. `flagLoaded` and
`offsetMatched` are inside `poll_buffer`; `holding` has a wrapper;
`releaseCalled` and `clearing` are inside `release_buffer`; `draining` is at the
loop head of `decrement_readers_until`. -/
inductive ReaderPc where
  | idle
  | flagLoaded
  | offsetMatched
  | holding (hdr : Nat)
  | releaseCalled (hdr : Nat)
  | clearing (step : ClearStep) (hdr totalMessageLen : Nat)
  | draining
  | closed
deriving DecidableEq, Repr

structure Reader where
  joinOffset : Nat
  absReadOffset : Nat
  leaveOffset : Option Nat
  pc : ReaderPc
  received : List (List UInt8)
  decremented : List Nat
  closeStart : Option (Nat × List Nat)
deriving DecidableEq, Repr

structure State where
  mem : Memory
  readersAndWriteOffset : UInt64
  readOffset : Nat
  log : List Block
  stage : Nat → Stage
  readers : List Reader
  assertsHold : Bool
  clears : List Nat

/-- The queue `init_new_file` leaves. -/
def State.init : State where
  mem := fun _ => 0
  readersAndWriteOffset := 0
  readOffset := 0
  log := []
  stage := fun _ => .waiting
  readers := []
  assertsHold := true
  clears := []

namespace State

def numReaders (s : State) : Nat := (unwrap s.readersAndWriteOffset).numReaders.toNat

def writeOffset (s : State) : Nat := (unwrap s.readersAndWriteOffset).writeOffset.toNat

def setReader (s : State) (r : Nat) (rd : Reader) : State :=
  { s with readers := s.readers.set r rd }

def setStage (s : State) (b : Block) (stage : Stage) : State :=
  { s with stage := Function.update s.stage b.offset stage }

end State

/-- Addition in a `uint64_t`. -/
def add64 (a b : Nat) : Nat := (a + b) % 2 ^ 64

/-- Subtraction in a `uint64_t`. -/
def sub64 (a b : Nat) : Nat := (a + 2 ^ 64 - b) % 2 ^ 64

variable (Q : RingSize)

/-! ### Writers -/

/-- The reservation a successful CAS of `wait_for_next_write_offset` makes. -/
def newBlock (s : State) (size : Nat) (data : List UInt8) : Block where
  offset := s.writeOffset
  length := bytesToBump Q.bytes s.writeOffset (size + sizeofMessageHeader)
  size := size
  numReaders := s.numReaders
  data := data

def reserve (s : State) (size : Nat) (data : List UInt8) : State :=
  let b := newBlock Q s size data
  let wrapper := unwrap s.readersAndWriteOffset
  { s with
    readersAndWriteOffset := (wrapper.returnAddOffset (UInt64.ofNat b.length)).2
    log := s.log ++ [b]
    stage := Function.update s.stage b.offset .waiting }

/-- `must_wait`, for the value of `read_offset` just loaded. -/
def mustWait (s : State) (b : Block) : Bool :=
  decide (Q.bytes < sub64 b.finish s.readOffset)

def loadReadOffset (s : State) (b : Block) : State :=
  if mustWait Q s b then s else s.setStage b .admitted

/-- The next header store of `claim_buffer` or `insert_skip_message`. -/
def storeHeader (s : State) (b : Block) : State :=
  match s.stage b.offset with
  | .admitted =>
    { s.setStage b .offsetStored with mem := setAbsOffset s.mem (b.hdr Q) b.offset }
  | .offsetStored =>
    { s.setStage b .sizeStored with mem := setMessageSize s.mem (b.hdr Q) (b.messageSize Q) }
  | .sizeStored =>
    { s.setStage b .typeStored with mem := setType s.mem (b.hdr Q) (b.type Q) }
  | .typeStored =>
    { s.setStage b .claimed with
      mem := setNumReaders s.mem (b.hdr Q) (UInt8.ofNat b.numReaders) }
  | _ => s

/-- The end of `insert_skip_message`. `message_header + sizeof(MessageHeader)`
is pointer arithmetic on `MessageHeader*`, so the cleared bytes start 18 headers
behind the header. -/
def finishSkip (s : State) (b : Block) : State :=
  let cleared := s.mem.fill (b.hdr Q + sizeofMessageHeader * sizeofMessageHeader)
    (b.messageSize Q) 0
  { s.setStage b .committed with mem := setCommitFlag cleared (b.hdr Q) .readyForConsumer }

/-- `write_to_buffer` of the writer's data, which ends in `commit_buffer`. -/
def writeToBuffer (s : State) (b : Block) : State :=
  let written := s.mem.write (b.hdr Q + sizeofMessageHeader) b.data
  { s.setStage b .committed with
    mem := setCommitFlag written (b.hdr Q) .readyForConsumer
    assertsHold := s.assertsHold && decide (b.data.length + sizeofMessageHeader ≤ b.length) }

def abortBuffer (s : State) (b : Block) : State :=
  let cleared := s.mem.fill (b.hdr Q + sizeofMessageHeader) (messageSize s.mem (b.hdr Q)) 0
  { s.setStage b .aborted with mem := setCommitFlag cleared (b.hdr Q) .aborted }

/-! ### Readers -/

/-- A reader whose join CAS observed the write offset `offset`. -/
def Reader.joinedAt (offset : Nat) : Reader where
  joinOffset := offset
  absReadOffset := offset
  leaveOffset := none
  pc := .idle
  received := []
  decremented := []
  closeStart := none

/-- The constructor of a reading `IpcQueue`: `modify_readers(true)`. -/
def join (s : State) : State :=
  let result := (unwrap s.readersAndWriteOffset).returnAddReader
  { s with
    readersAndWriteOffset := result.2
    readers := s.readers ++ [.joinedAt result.1.writeOffset.toNat] }

/-- After `release_buffer` a reader is back in its drain loop if it is closing. -/
def Reader.afterRelease (rd : Reader) : ReaderPc :=
  if rd.leaveOffset.isSome then .draining else .idle

/-- The first atomic step of `release_buffer`: the reader moves on by what the
header says and decrements `num_readers`. -/
def fetchSub (s : State) (r : Nat) (rd : Reader) (hdr : Nat) : State :=
  let totalMessageLen := messageSize s.mem hdr + sizeofMessageHeader
  let prevCount := MessageHeader.numReaders s.mem hdr
  let last := decide (prevCount.toNat ≤ 1)
  let rd' := { rd with
    absReadOffset := add64 rd.absReadOffset totalMessageLen
    decremented := rd.decremented ++ [absOffset s.mem hdr]
    pc := if last then .clearing .body hdr totalMessageLen else rd.afterRelease }
  { s with
    mem := setNumReaders s.mem hdr (prevCount - 1)
    readers := s.readers.set r rd'
    clears := if last then s.clears ++ [absOffset s.mem hdr] else s.clears
    assertsHold := s.assertsHold && decide (rd.absReadOffset % Q.bytes = hdr)
      && decide (totalMessageLen ≤ Q.bytes) }

/-- One step of the part of `release_buffer` that only the last reader runs. -/
def clearStep (s : State) (r : Nat) (rd : Reader) (step : ClearStep)
    (hdr totalMessageLen : Nat) : State :=
  let goto (pc : ReaderPc) := s.setReader r { rd with pc := pc }
  match step with
  | .body =>
    { goto (.clearing .size hdr totalMessageLen) with
      mem := s.mem.fill (hdr + sizeofMessageHeader) (messageSize s.mem hdr) 0 }
  | .size =>
    { goto (.clearing .type hdr totalMessageLen) with mem := setMessageSize s.mem hdr 0 }
  | .type =>
    { goto (.clearing .flag hdr totalMessageLen) with mem := setType s.mem hdr .normal }
  | .flag =>
    { goto (.clearing .advance hdr totalMessageLen) with mem := setCommitFlag s.mem hdr .notReady }
  | .advance =>
    { goto rd.afterRelease with
      readOffset := add64 s.readOffset totalMessageLen
      assertsHold := s.assertsHold &&
        decide (add64 s.readOffset totalMessageLen = rd.absReadOffset) }

/-- The next atomic step of reader `r` inside `release_buffer`, if it is there. -/
def releaseStep (s : State) (r : Nat) : State :=
  match s.readers[r]? with
  | none => s
  | some rd =>
    match rd.pc with
    | .releaseCalled hdr => fetchSub Q s r rd hdr
    | .clearing step hdr totalMessageLen => clearStep s r rd step hdr totalMessageLen
    | _ => s

/-- What `poll_buffer` finds in a header. -/
inductive PollOutcome where
  | nullopt
  | skipPadding
  | skipAborted
  | wrapper
deriving DecidableEq, Repr

/-- The decision of `poll_buffer`, over the fields it loads. -/
def pollOutcome (m : Memory) (absReadOffset : Nat) : PollOutcome :=
  let hdr := absReadOffset % Q.bytes
  if commitFlag m hdr = CommitFlag.readyForConsumer.toByte then
    if absOffset m hdr ≠ absReadOffset then .nullopt
    else if type m hdr = MessageType.padding.toNat then .skipPadding
    else .wrapper
  else if commitFlag m hdr = CommitFlag.aborted.toByte then .skipAborted
  else .nullopt

/-- `release_buffer` is called on the header at `hdr`. -/
def callRelease (s : State) (r : Nat) (rd : Reader) (hdr : Nat) : State :=
  s.setReader r { rd with pc := .releaseCalled hdr }

/-- A wrapper around the block at `hdr` is handed out. -/
def handOut (s : State) (r : Nat) (rd : Reader) (hdr : Nat) : State :=
  s.setReader r { rd with
    pc := .holding hdr
    received := rd.received ++ [payload s.mem hdr (messageSize s.mem hdr)] }

/-- The assertion of `poll_buffer` about the block it found. -/
def assertFits (s : State) (hdr : Nat) : State :=
  { s with assertsHold := s.assertsHold &&
      decide (messageSize s.mem hdr + sizeofMessageHeader ≤ Q.bytes) }

/-- `poll_buffer` up to the call of `release_buffer`, if it makes one. -/
def pollHeader (s : State) (r : Nat) (rd : Reader) : State :=
  let hdr := rd.absReadOffset % Q.bytes
  match pollOutcome Q s.mem rd.absReadOffset with
  | .nullopt => s
  | .skipPadding => callRelease (assertFits Q s hdr) r rd hdr
  | .skipAborted => callRelease s r rd hdr
  | .wrapper => handOut (assertFits Q s hdr) r rd hdr

/-- The first load of `poll_buffer`. -/
def loadCommitFlag (s : State) (r : Nat) (rd : Reader) : State :=
  let hdr := rd.absReadOffset % Q.bytes
  if commitFlag s.mem hdr = CommitFlag.readyForConsumer.toByte then
    s.setReader r { rd with pc := .flagLoaded }
  else if commitFlag s.mem hdr = CommitFlag.aborted.toByte then callRelease s r rd hdr
  else s

/-- The second load of `poll_buffer`, after a flag that said ready. -/
def loadAbsOffset (s : State) (r : Nat) (rd : Reader) : State :=
  let hdr := rd.absReadOffset % Q.bytes
  s.setReader r { rd with
    pc := if absOffset s.mem hdr ≠ rd.absReadOffset then .idle else .offsetMatched }

/-- The remaining loads of `poll_buffer`. -/
def loadSizeAndType (s : State) (r : Nat) (rd : Reader) : State :=
  let hdr := rd.absReadOffset % Q.bytes
  if type s.mem hdr = MessageType.padding.toNat then callRelease (assertFits Q s hdr) r rd hdr
  else handOut (assertFits Q s hdr) r rd hdr

/-- `close` of a reader up to its leave CAS. -/
def leave (s : State) (r : Nat) (rd : Reader) : State :=
  let result := (unwrap s.readersAndWriteOffset).returnSubReader
  { s with
    readersAndWriteOffset := result.2
    readers := s.readers.set r { rd with
      leaveOffset := some result.1.writeOffset.toNat
      closeStart := some (rd.absReadOffset, rd.decremented)
      pc := .draining } }

/-- The loop head of `decrement_readers_until(absWriteOffset)`. -/
def drain (s : State) (r : Nat) (rd : Reader) (absWriteOffset : Nat) : State :=
  let hdr := rd.absReadOffset % Q.bytes
  if rd.absReadOffset ≤ absWriteOffset ∧
      commitFlag s.mem hdr = CommitFlag.readyForConsumer.toByte then
    callRelease s r rd hdr
  else s.setReader r { rd with pc := .closed }

/-! ### The transition system -/

inductive Action where
  | join
  | reserve (size : Nat) (data : List UInt8)
  | loadReadOffset (b : Block)
  | storeHeader (b : Block)
  | finishSkip (b : Block)
  | writeToBuffer (b : Block)
  | abortBuffer (b : Block)
  | poll (r : Nat)
  | loadCommitFlag (r : Nat)
  | loadAbsOffset (r : Nat)
  | loadSizeAndType (r : Nat)
  | callRelease (r : Nat)
  | releaseStep (r : Nat)
  | leave (r : Nat)
  | drain (r : Nat)
deriving DecidableEq, Repr

def Stage.isWritingHeader : Stage → Bool
  | .admitted | .offsetStored | .sizeStored | .typeStored => true
  | _ => false

def ReaderPc.isReleasing : ReaderPc → Bool
  | .releaseCalled _ | .clearing _ _ _ => true
  | _ => false

/-- `b` is a reservation whose writer is at `stage`. -/
def State.AtStage (s : State) (b : Block) (stage : Stage) : Prop :=
  b ∈ s.log ∧ s.stage b.offset = stage

instance (s : State) (b : Block) (stage : Stage) : Decidable (s.AtStage b stage) := by
  unfold State.AtStage; infer_instance

/-- One atomic step, or `none` where the agent is not at that step. A caller may
call `release_buffer` on the header at its `abs_read_offset` without polling. -/
def step (s : State) : Action → Option State
  | .join => some (join s)
  | .reserve size data =>
    if 0 < size ∧ size ≤ Q.bytes - sizeofMessageHeader then some (reserve Q s size data) else none
  | .loadReadOffset b => if s.AtStage b .waiting then some (loadReadOffset Q s b) else none
  | .storeHeader b =>
    if b ∈ s.log ∧ (s.stage b.offset).isWritingHeader then some (storeHeader Q s b) else none
  | .finishSkip b =>
    if s.AtStage b .claimed ∧ b.isPadding Q = true then some (finishSkip Q s b) else none
  | .writeToBuffer b =>
    if s.AtStage b .claimed ∧ b.isPadding Q = false then some (writeToBuffer Q s b) else none
  | .abortBuffer b =>
    if s.AtStage b .claimed ∧ b.isPadding Q = false then some (abortBuffer Q s b) else none
  | .poll r => s.readers[r]?.bind fun rd =>
    if rd.pc = .idle then some (pollHeader Q s r rd) else none
  | .loadCommitFlag r => s.readers[r]?.bind fun rd =>
    if rd.pc = .idle then some (loadCommitFlag Q s r rd) else none
  | .loadAbsOffset r => s.readers[r]?.bind fun rd =>
    if rd.pc = .flagLoaded then some (loadAbsOffset Q s r rd) else none
  | .loadSizeAndType r => s.readers[r]?.bind fun rd =>
    if rd.pc = .offsetMatched then some (loadSizeAndType Q s r rd) else none
  | .callRelease r => s.readers[r]?.bind fun rd =>
    match rd.pc with
    | .holding hdr => some (callRelease s r rd hdr)
    | .idle => some (callRelease s r rd (rd.absReadOffset % Q.bytes))
    | _ => none
  | .releaseStep r => s.readers[r]?.bind fun rd =>
    if rd.pc.isReleasing then some (releaseStep Q s r) else none
  | .leave r => s.readers[r]?.bind fun rd =>
    if rd.pc = .idle then some (leave s r rd) else none
  | .drain r => s.readers[r]?.bind fun rd => rd.leaveOffset.bind fun absWriteOffset =>
    if rd.pc = .draining then some (drain Q s r rd absWriteOffset) else none

end MockExchange
