import MockExchange.Lib.ListUpdate
import MockExchange.Closing
import MockExchange.Startup
import Mathlib.Logic.Function.Basic

/-!
# Python handles on queues

Python's publications and subscriptions own C++ objects through raw pointers,
and these own an `IpcQueue` each. `publication_close` closes the C++ object and
then deletes it, both of which end up in `IpcQueue::close`; opening again closes
first, and `__del__` closes once more. What these layers are for is told by the
counters in shared memory, which must agree with the objects there are. Names
are unlinked while files are still in use, so one name stands for many files
over a run, and an agent stays with the file it opened.

Calls come one after the other here. Claims, commits and polls appear with what
they do to the counters and to the objects; the ring is left out, and so is
`publication_status`, whose foreign function has no argument type declared.
-/

namespace MockExchange

open Transition ListUpdate UnpackedReadersAndWriterOffset

/-! ### Queues -/

/-- What the names are linked to, and all files there ever were: a file that was
unlinked stays where it is mapped. -/
structure SharedMemory where
  names : String → Option Nat
  files : List ShmFile

/-- An `IpcQueue`. `fdOpen` says that its `fd` is not -1. -/
structure IpcQueue where
  isWriter : Bool
  fileName : String
  file : Nat
  queueSizeBytes : Nat
  availableQueueSizeBytes : Nat
  fdOpen : Bool
deriving DecidableEq, Repr

namespace ShmFile

/-- `init_new_file` from its first step to its last. -/
def initNewFile (queueSizeBytes : Nat) : ShmFile :=
  [InitStep.ftruncate, .memset, .readersAndWriteOffset, .queueSizeBytes, .messageCount,
    .numWriters, .readOffset, .magic].foldl (fun f step => f.init queueSizeBytes step) .empty

/-- The end of the constructor. -/
def register (f : ShmFile) (isWriter : Bool) : ShmFile :=
  if isWriter then { f with numWriters := (f.numWriters + 1) % 2 ^ 32 }
  else { f with readersAndWriteOffset := (unwrap f.readersAndWriteOffset).returnAddReader.2 }

/-- `modify_readers(false)` of a reader, `num_writers.fetch_sub(1)` of a writer. -/
def deregister (f : ShmFile) (isWriter : Bool) : ShmFile :=
  if isWriter then { f with numWriters := (f.numWriters + (2 ^ 32 - 1)) % 2 ^ 32 }
  else { f with readersAndWriteOffset := (unwrap f.readersAndWriteOffset).returnSubReader.2 }

/-- A claim that moves the write offset on by so much, skip messages included. -/
def claim (f : ShmFile) (bytes : UInt64) : ShmFile :=
  { f with
    readersAndWriteOffset := ((unwrap f.readersAndWriteOffset).returnAddOffset bytes).2
    messageCount := (f.messageCount + 1) % 2 ^ 64 }

end ShmFile

/-- The constructor of `IpcQueue`, or `none` where it throws. -/
def IpcQueue.construct (shm : SharedMemory) (params : IpcQueueParameters) (fileName : String) :
    Option (IpcQueue × SharedMemory) :=
  let queueSizeBytes := params.queueSize + sizeofGlobalHeader
  match shm.names fileName with
  | none =>
    let f := (ShmFile.initNewFile queueSizeBytes).register params.isWriter
    some (⟨params.isWriter, fileName, shm.files.length, queueSizeBytes, params.queueSize, true⟩,
      { names := Function.update shm.names fileName (some shm.files.length)
        files := shm.files ++ [f] })
  | some file => shm.files[file]?.bind fun f =>
    if f.magic ≠ MAGIC then none
    else
      let sizes := if f.queueSizeBytes ≠ queueSizeBytes
        then (f.queueSizeBytes, f.queueSizeBytes - sizeofGlobalHeader)
        else (queueSizeBytes, params.queueSize)
      some (⟨params.isWriter, fileName, file, sizes.1, sizes.2, true⟩,
        { shm with files := shm.files.set file (f.register params.isWriter) })

/-- `close` unlinks the name of the queue. A writer looks at the readers it
loaded before it left. -/
def IpcQueue.unlinks (queue : IpcQueue) (f : ShmFile) : Bool :=
  decide ((f.deregister queue.isWriter).numWriters = 0) &&
    (!queue.isWriter || decide ((unwrap f.readersAndWriteOffset).numReaders = 0))

/-- `IpcQueue::close`. -/
def IpcQueue.close (queue : IpcQueue) (shm : SharedMemory) : IpcQueue × SharedMemory :=
  match queue.fdOpen, shm.files[queue.file]? with
  | true, some f =>
    ({ queue with fdOpen := false },
      { names := if queue.unlinks f then Function.update shm.names queue.fileName none
          else shm.names
        files := shm.files.set queue.file (f.deregister queue.isWriter) })
  | _, _ => (queue, shm)

/-! ### C++ objects -/

/-- An `ArchivePublication` or an `ArchiveSubscription` with its `unique_ptr`. -/
structure Archive where
  isPublication : Bool
  queue : Option IpcQueue
deriving DecidableEq, Repr

namespace Archive

/-- `close`. A subscription resets its pointer, so the destructor of the queue
closes a second time; a publication follows the pointer without looking. -/
def close (archive : Archive) (shm : SharedMemory) : Option (Archive × SharedMemory) :=
  match archive.isPublication, archive.queue with
  | true, some queue =>
    let (queue, shm) := queue.close shm
    some ({ archive with queue := some queue }, shm)
  | true, none => none
  | false, some queue =>
    let (queue, shm) := queue.close shm
    some ({ archive with queue := none }, (queue.close shm).2)
  | false, none => some (archive, shm)

/-- `delete`. A publication leaves it to the queue's destructor to close. -/
def destroy (archive : Archive) (shm : SharedMemory) : Option SharedMemory :=
  match archive.isPublication, archive.queue with
  | true, some queue => some (queue.close shm).2
  | true, none => some shm
  | false, _ => (archive.close shm).map Prod.snd

end Archive

/-! ### Python objects -/

/-- A Python `ArchivePublication` or `ArchiveSubscription`. -/
structure Endpoint where
  isPublication : Bool
  fileName : String
  handle : Option Nat
deriving DecidableEq, Repr

/-- The C++ objects by their addresses, with `none` for one that was deleted, the
Python objects, and the pointer each `ClaimedBuffer` was made with. -/
structure World where
  shm : SharedMemory
  heap : List (Option Archive)
  endpoints : List Endpoint
  buffers : List (Option Nat)

/-- Nothing exists yet. -/
def World.init : World := ⟨⟨fun _ => none, []⟩, [], [], []⟩

inductive Call where
  | construct (params : IpcQueueParameters) (fileName : String)
  | open (i : Nat) (params : IpcQueueParameters)
  | close (i : Nat)
  | pollSubscription (i : Nat)
  | publicationClaim (i : Nat)
  | publicationCommit (i : Nat)
  | enter (k : Nat) (bytes : UInt64)
  | exit (k : Nat)
  | archiveForceClose (fileName : String)

namespace World

/-- The object at an address, unless it was deleted. -/
def native (w : World) (handle : Nat) : Option Archive := w.heap[handle]?.join

/-- `archive_pub_create` and `archive_sub_create` for endpoint `i`. -/
def archiveCreate (w : World) (i : Nat) (e : Endpoint) (params : IpcQueueParameters) :
    Option World :=
  (IpcQueue.construct w.shm { params with isWriter := e.isPublication } e.fileName).map
    fun (queue, shm) => { w with
      shm := shm
      heap := w.heap ++ [some ⟨e.isPublication, some queue⟩]
      endpoints := w.endpoints.set i { e with handle := some w.heap.length } }

/-- `publication_close` and `subscription_close`, which `__del__` calls too. -/
def close (w : World) (i : Nat) : Option World :=
  w.endpoints[i]?.bind fun e => match e.handle with
    | none => some w
    | some handle => (w.native handle).bind fun archive =>
      (archive.close w.shm).bind fun (archive, shm) =>
        (archive.destroy shm).map fun shm => { w with
          shm := shm
          heap := w.heap.set handle none
          endpoints := w.endpoints.set i { e with handle := none } }

/-- `publication_open` and `subscription_open`. -/
def «open» (w : World) (i : Nat) (params : IpcQueueParameters) : Option World :=
  (w.close i).bind fun w => w.endpoints[i]?.bind fun e => w.archiveCreate i e params

/-- `__init__`. -/
def construct (w : World) (params : IpcQueueParameters) (fileName : String) : Option World :=
  World.open { w with endpoints := w.endpoints ++ [⟨params.isWriter, fileName, none⟩] }
    w.endpoints.length params

/-- `poll_subscription`. -/
def pollSubscription (w : World) (i : Nat) : Option World :=
  w.endpoints[i]?.bind fun e => match e.handle with
    | none => some w
    | some handle => (w.native handle).map fun _ => w

/-- `publication_claim`: a `ClaimedBuffer` over the pointer as it is now. -/
def publicationClaim (w : World) (i : Nat) : Option World :=
  w.endpoints[i]?.map fun e => { w with buffers := w.buffers ++ [e.handle] }

/-- `archive_pub_commit`, which does not check its pointer. -/
def archivePubCommit (w : World) (handle : Option Nat) : Option World :=
  (handle.bind w.native).map fun _ => w

def publicationCommit (w : World) (i : Nat) : Option World :=
  w.endpoints[i]?.bind fun e => w.archivePubCommit e.handle

/-- `ClaimedBuffer.__enter__`, whose claim moves the write offset on. -/
def enter (w : World) (k : Nat) (bytes : UInt64) : Option World :=
  (w.buffers[k]?.join.bind w.native).bind fun archive => archive.queue.bind fun queue =>
    w.shm.files[queue.file]?.map fun f =>
      { w with shm := { w.shm with files := w.shm.files.set queue.file (f.claim bytes) } }

/-- `ClaimedBuffer.__exit__`. -/
def exit (w : World) (k : Nat) : Option World :=
  w.buffers[k]?.bind w.archivePubCommit

/-- `archive_force_close`. -/
def archiveForceClose (w : World) (fileName : String) : World :=
  { w with shm := { w.shm with names := Function.update w.shm.names fileName none } }

/-- One call from Python, or `none` where it follows a pointer to no object. -/
def call (w : World) : Call → Option World
  | .construct params fileName => w.construct params fileName
  | .open i params => w.open i params
  | .close i => w.close i
  | .pollSubscription i => w.pollSubscription i
  | .publicationClaim i => w.publicationClaim i
  | .publicationCommit i => w.publicationCommit i
  | .enter k bytes => w.enter k bytes
  | .exit k => w.exit k
  | .archiveForceClose fileName => some (w.archiveForceClose fileName)

end World

/-! ### One agent on its own

Opening and closing are what the steps of `Startup` and `Closing` come to when
nobody else takes one. -/

section

variable {shm shm' : SharedMemory} {queue : IpcQueue} {f : ShmFile}
  {params : IpcQueueParameters} {fileName : String}

/-- Agent `a` of a start-up is attached with the fields of the queue. -/
structure IpcQueue.Attached (queue : IpcQueue) (a : Agent) : Prop where
  pc : a.pc = .attached
  isWriter : a.isWriter = queue.isWriter
  queueSizeBytes : a.queueSizeBytes = queue.queueSizeBytes
  availableQueueSizeBytes : a.availableQueueSizeBytes = queue.availableQueueSizeBytes

/-- The constructor is a start-up of one agent. -/
theorem IpcQueue.construct_startup (hsize : ∀ f ∈ shm.files, f.size ≠ 0)
    (h : construct shm params fileName = some (queue, shm')) : ∃ steps t a,
      exec Startup.step (fun _ _ => True)
        ⟨(shm.names fileName).bind fun file => shm.files[file]?, [.start params], none⟩
        (List.replicate steps 0) = some t ∧
      t.file = shm'.files[queue.file]? ∧ t.agents = [a] ∧ queue.Attached a := by
  obtain ⟨size, isWriter, hpower, hmax⟩ := params
  unfold construct at h
  cases hname : shm.names fileName with
  | none =>
    simp only [hname, Option.some.injEq, Prod.mk.injEq] at h
    obtain ⟨rfl, rfl⟩ := h
    have hfile : (shm.files ++ [(ShmFile.initNewFile (size + sizeofGlobalHeader)).register
        isWriter])[shm.files.length]? =
        some ((ShmFile.initNewFile (size + sizeofGlobalHeader)).register isWriter) := by
      rw [List.getElem?_append_right (Nat.le_refl _), Nat.sub_self]
      rfl
    rw [hfile]
    cases isWriter with
    | true => exact ⟨11, _, _, rfl, rfl, rfl, rfl, rfl, rfl, rfl⟩
    | false => exact ⟨11, _, _, rfl, rfl, rfl, rfl, rfl, rfl, rfl⟩
  | some file =>
    simp only [hname] at h
    obtain ⟨f, hf, h⟩ := Option.bind_eq_some_iff.mp h
    have hsize := hsize f (List.mem_of_getElem? hf)
    split at h
    · cases h
    · rename_i hmagic
      rw [Option.some.injEq, Prod.mk.injEq] at h
      obtain ⟨rfl, rfl⟩ := h
      rw [Option.bind_some, hf]
      simp only [List.getElem?_set_self (lt_of_getElem? hf)]
      have hmagic := not_not.mp hmagic
      -- the four steps of an agent that finds the file, executed symbolically
      by_cases hsame : f.queueSizeBytes = size + sizeofGlobalHeader <;> cases isWriter <;>
        refine ⟨4, ?_⟩ <;>
        simp [exec, Startup.step, Startup.shmOpen, Startup.setAgent, Agent.start,
          Startup.checkMagic, Startup.checkSize, Startup.register, hsize, hmagic, hsame,
          ShmFile.register] <;>
        exact ⟨rfl, rfl, rfl, rfl⟩

/-- `close` is the closing down of one agent. -/
theorem IpcQueue.close_closing (hlt : f.numWriters < 2 ^ 32) : ∃ t,
    exec Closing.step (fun _ _ => True)
      ⟨f.readersAndWriteOffset, UInt32.ofNat f.numWriters, [.start queue.isWriter], false⟩
      (List.replicate 4 0) = some t ∧
    t.readersAndWriteOffset = (f.deregister queue.isWriter).readersAndWriteOffset ∧
    t.numWriters.toNat = (f.deregister queue.isWriter).numWriters ∧
    t.unlinked = queue.unlinks f ∧ t.agents.map Closer.pc = [.closed] := by
  have hzero : ∀ n : UInt32, decide (n = 0) = decide (n.toNat = 0) := fun n =>
    decide_eq_decide.mpr UInt32.toNat_inj.symm
  have hloaded : (UInt32.ofNat f.numWriters).toNat = f.numWriters := UInt32.toNat_ofNat_of_lt hlt
  cases hkind : queue.isWriter with
  | true =>
    have hleft : (UInt32.ofNat f.numWriters - 1).toNat = (f.deregister true).numWriters := by
      rw [UInt32.toNat_sub, hloaded]
      simp only [ShmFile.deregister, if_true]
      have hone : (1 : UInt32).toNat = 1 := rfl
      rw [hone]
      omega
    refine ⟨_, rfl, rfl, hleft, ?_, rfl⟩
    change (false || (decide (UInt32.ofNat f.numWriters - 1 = 0) &&
      (!true || decide ((unwrap f.readersAndWriteOffset).numReaders = 0)))) = _
    rw [Bool.false_or, hzero, hleft, IpcQueue.unlinks, hkind]
  | false =>
    refine ⟨_, rfl, rfl, hloaded, ?_, rfl⟩
    change (false || (decide (UInt32.ofNat f.numWriters = 0) && (!false || _))) = _
    rw [Bool.false_or, hzero, hloaded, IpcQueue.unlinks, hkind]
    rfl

end

end MockExchange
