import MockExchange.Lib.ListUpdate
import MockExchange.Lib.Transition
import MockExchange.Layout
import MockExchange.PackedWord
import Mathlib.Algebra.Order.BigOperators.Group.List

/-!
# Starting up

Any number of agents construct an `IpcQueue` over one name that does not exist
yet. Each tries to open the file, creates it exclusively if there is none, and
then either initialises the header, storing the magic last, or waits for nothing
and checks the magic. These are steps of their own, in any order. The magic makes
the difference: before it is stored only the creator gets past its checks, and
from then on every agent that starts does.
-/

namespace MockExchange

open Transition ListUpdate UnpackedReadersAndWriterOffset

/-- `IpcQueue::MAGIC`. -/
def MAGIC : Nat := 0xDEADBEEF

/-- `sizeof(GlobalHeader)`. -/
def sizeofGlobalHeader : Nat := 192

/-- Parameters that pass the size checks at the head of the constructor. -/
structure IpcQueueParameters where
  queueSize : Nat
  isWriter : Bool
  powerOfTwo : isPowerOfTwo queueSize = true
  le_max : queueSize ≤ MAX_QUEUE_SIZE_BYTES

/-- The file behind the name: its size and the fields of the global header. -/
structure ShmFile where
  size : Nat
  magic : Nat
  readersAndWriteOffset : UInt64
  messageCount : Nat
  queueSizeBytes : Nat
  numWriters : Nat
  readOffset : Nat
deriving DecidableEq, Repr

/-- The file an exclusive `shm_open` makes. -/
def ShmFile.empty : ShmFile := ⟨0, 0, 0, 0, 0, 0, 0⟩

/-- The steps of `init_new_file`. -/
inductive InitStep where
  | ftruncate
  | memset
  | readersAndWriteOffset
  | queueSizeBytes
  | messageCount
  | numWriters
  | readOffset
  | magic
deriving DecidableEq, Repr

/-- The step after `step`, or `none` after the last. -/
def InitStep.next : InitStep → Option InitStep
  | .ftruncate => some .memset
  | .memset => some .readersAndWriteOffset
  | .readersAndWriteOffset => some .queueSizeBytes
  | .queueSizeBytes => some .messageCount
  | .messageCount => some .numWriters
  | .numWriters => some .readOffset
  | .readOffset => some .magic
  | .magic => none

/-- What a step of `init_new_file` stores. New bytes of the file are zero, and
the ring behind the header is not modelled. -/
def ShmFile.init (f : ShmFile) (queueSizeBytes : Nat) : InitStep → ShmFile
  | .ftruncate => { f with size := queueSizeBytes }
  | .memset => f
  | .readersAndWriteOffset => { f with readersAndWriteOffset := 0 }
  | .queueSizeBytes => { f with queueSizeBytes := queueSizeBytes }
  | .messageCount => { f with messageCount := 0 }
  | .numWriters => { f with numWriters := 0 }
  | .readOffset => { f with readOffset := 0 }
  | .magic => { f with magic := MAGIC }

/-- Where an agent is in its constructor, and how it ended. A load behind the end
of the file faults. -/
inductive StartPc where
  | opening
  | creating
  | initializing (step : InitStep)
  | checkingMagic
  | checkingSize
  | registering
  | attached
  | threwFailedToOpen
  | threwUninitialized
  | faulted
deriving DecidableEq, Repr

structure Agent where
  isWriter : Bool
  queueSizeBytes : Nat
  availableQueueSizeBytes : Nat
  absReadOffset : Nat
  pc : StartPc
deriving DecidableEq, Repr

/-- An agent past the size checks. -/
def Agent.start (params : IpcQueueParameters) : Agent where
  isWriter := params.isWriter
  queueSizeBytes := params.queueSize + sizeofGlobalHeader
  availableQueueSizeBytes := params.queueSize
  absReadOffset := 0
  pc := .opening

/-- `creator` records whose exclusive create succeeded. -/
structure Startup where
  file : Option ShmFile
  agents : List Agent
  creator : Option Nat
deriving DecidableEq, Repr

def Startup.init (params : List IpcQueueParameters) : Startup :=
  ⟨none, params.map Agent.start, none⟩

namespace Startup

def setAgent (s : Startup) (i : Nat) (a : Agent) (pc : StartPc) : Startup :=
  { s with agents := s.agents.set i { a with pc := pc } }

/-- `shm_open(O_RDWR)`. -/
def shmOpen (s : Startup) (i : Nat) (a : Agent) : Startup :=
  s.setAgent i a (if s.file.isSome then .checkingMagic else .creating)

/-- `shm_open(O_CREAT | O_RDWR | O_EXCL)`. -/
def shmCreate (s : Startup) (i : Nat) (a : Agent) : Startup :=
  match s.file with
  | some _ => s.setAgent i a .threwFailedToOpen
  | none =>
    { s.setAgent i a (.initializing .ftruncate) with file := some .empty, creator := some i }

/-- One step of `init_new_file`. -/
def initNewFile (s : Startup) (i : Nat) (a : Agent) (f : ShmFile) (step : InitStep) : Startup :=
  let pc := match step.next with
    | some next => .initializing next
    | none => .registering
  { s.setAgent i a pc with file := some (f.init a.queueSizeBytes step) }

/-- The magic check of `validate_settings`. -/
def checkMagic (s : Startup) (i : Nat) (a : Agent) (f : ShmFile) : Startup :=
  s.setAgent i a <|
    if f.size = 0 then .faulted
    else if f.magic ≠ MAGIC then .threwUninitialized
    else .checkingSize

/-- The rest of `validate_settings`. -/
def checkSize (s : Startup) (i : Nat) (a : Agent) (f : ShmFile) : Startup :=
  let actual := f.queueSizeBytes
  let a := if actual ≠ a.queueSizeBytes then { a with
      queueSizeBytes := actual
      availableQueueSizeBytes := actual - sizeofGlobalHeader }
    else a
  s.setAgent i a .registering

/-- The end of the constructor: `modify_readers(true)` or `num_writers.fetch_add`. -/
def register (s : Startup) (i : Nat) (a : Agent) (f : ShmFile) : Startup :=
  if a.isWriter then
    { s.setAgent i a .attached with file := some { f with numWriters := (f.numWriters + 1) % 2 ^ 32 } }
  else
    let result := (unwrap f.readersAndWriteOffset).returnAddReader
    { s.setAgent i { a with absReadOffset := result.1.writeOffset.toNat } .attached with
      file := some { f with readersAndWriteOffset := result.2 } }

/-- The next step of agent `i`. -/
def step (s : Startup) (i : Nat) : Option Startup :=
  s.agents[i]?.bind fun a =>
    match a.pc, s.file with
    | .opening, _ => some (s.shmOpen i a)
    | .creating, _ => some (s.shmCreate i a)
    | .initializing step, some f => some (s.initNewFile i a f step)
    | .checkingMagic, some f => some (s.checkMagic i a f)
    | .checkingSize, some f => some (s.checkSize i a f)
    | .registering, some f => some (s.register i a f)
    | _, _ => none

end Startup

/-- The constructor returned or stopped. -/
def StartPc.finished : StartPc → Bool
  | .attached | .threwFailedToOpen | .threwUninitialized | .faulted => true
  | _ => false

/-- Agents that initialise nothing and have not seen the magic. -/
def StartPc.early : StartPc → Bool
  | .opening | .creating | .checkingMagic | .threwFailedToOpen | .threwUninitialized
  | .faulted => true
  | _ => false

namespace Startup

def attachedWriters (s : Startup) : Nat :=
  s.agents.countP fun a => decide (a.pc = .attached) && a.isWriter

def attachedReaders (s : Startup) : Nat :=
  s.agents.countP fun a => decide (a.pc = .attached) && !a.isWriter

end Startup

section

variable {params : List IpcQueueParameters} {s t : Startup} {i : Nat} {a b : Agent} {f : ShmFile}

/-! ### What a step can do -/

/-- The steps with the agent that takes them and its file. -/
inductive Startup.Stepped (s : Startup) (i : Nat) : Startup → Prop where
  | opened {a : Agent} (ha : s.agents[i]? = some a) (hpc : a.pc = .opening) :
      Stepped s i (s.shmOpen i a)
  | created {a : Agent} (ha : s.agents[i]? = some a) (hpc : a.pc = .creating) :
      Stepped s i (s.shmCreate i a)
  | initialized {a : Agent} {f : ShmFile} {step : InitStep} (ha : s.agents[i]? = some a)
      (hpc : a.pc = .initializing step) (hf : s.file = some f) :
      Stepped s i (s.initNewFile i a f step)
  | checkedMagic {a : Agent} {f : ShmFile} (ha : s.agents[i]? = some a)
      (hpc : a.pc = .checkingMagic) (hf : s.file = some f) : Stepped s i (s.checkMagic i a f)
  | checkedSize {a : Agent} {f : ShmFile} (ha : s.agents[i]? = some a)
      (hpc : a.pc = .checkingSize) (hf : s.file = some f) : Stepped s i (s.checkSize i a f)
  | registered {a : Agent} {f : ShmFile} (ha : s.agents[i]? = some a)
      (hpc : a.pc = .registering) (hf : s.file = some f) : Stepped s i (s.register i a f)

theorem Startup.Stepped.of_step (hstep : s.step i = some t) : s.Stepped i t := by
  obtain ⟨a, ha, hstep⟩ := Option.bind_eq_some_iff.mp hstep
  cases hpc : a.pc <;> cases hf : s.file <;> simp only [hpc, hf, reduceCtorEq] at hstep
  all_goals cases hstep
  · exact .opened ha hpc
  · exact .opened ha hpc
  · exact .created ha hpc
  · exact .created ha hpc
  · exact .initialized ha hpc hf
  · exact .checkedMagic ha hpc hf
  · exact .checkedSize ha hpc hf
  · exact .registered ha hpc hf

/-- How many steps an agent has left at most. -/
def StartPc.remaining : StartPc → Nat
  | .opening => 11
  | .creating => 10
  | .initializing .ftruncate => 9
  | .initializing .memset => 8
  | .initializing .readersAndWriteOffset => 7
  | .initializing .queueSizeBytes => 6
  | .initializing .messageCount => 5
  | .initializing .numWriters => 4
  | .initializing .readOffset => 3
  | .initializing .magic => 2
  | .checkingMagic => 3
  | .checkingSize => 2
  | .registering => 1
  | .attached | .threwFailedToOpen | .threwUninitialized | .faulted => 0

def Startup.remaining (s : Startup) : Nat := (s.agents.map fun a => a.pc.remaining).sum

/-- The parameters an agent was started with, kept until it validated its
settings. -/
structure Agent.Follows (a : Agent) (p : IpcQueueParameters) : Prop where
  isWriter : a.isWriter = p.isWriter
  queueSizeBytes : a.pc ≠ .registering → a.pc ≠ .attached →
    a.queueSizeBytes = p.queueSize + sizeofGlobalHeader
  available : a.queueSizeBytes = a.availableQueueSizeBytes + sizeofGlobalHeader

/-- The one agent a step moves, and how. -/
structure Startup.Moves (s : Startup) (i : Nat) (a a' : Agent) (t : Startup) : Prop where
  agent : s.agents[i]? = some a
  agents : t.agents = s.agents.set i a'
  isWriter : a'.isWriter = a.isWriter
  remaining : a'.pc.remaining < a.pc.remaining

theorem InitStep.remaining_next (step next : InitStep) (h : step.next = some next) :
    (StartPc.initializing next).remaining < (StartPc.initializing step).remaining := by
  cases step <;> cases h <;> decide

theorem Startup.Moves.of_pc {pc pc' : StartPc} (ha : s.agents[i]? = some a)
    (hagents : t.agents = s.agents.set i { a with pc := pc' }) (hpc : a.pc = pc)
    (hlt : pc'.remaining < pc.remaining) : s.Moves i a { a with pc := pc' } t :=
  ⟨ha, hagents, rfl, hpc ▸ hlt⟩

theorem Startup.moves_shmOpen (ha : s.agents[i]? = some a) (hpc : a.pc = .opening) :
    s.Moves i a { a with pc := if s.file.isSome then .checkingMagic else .creating }
      (s.shmOpen i a) := by
  refine .of_pc ha rfl hpc ?_
  split <;> decide

theorem Startup.moves_shmCreate (ha : s.agents[i]? = some a) (hpc : a.pc = .creating) :
    s.Moves i a { a with
      pc := if s.file.isSome then .threwFailedToOpen else .initializing .ftruncate }
      (s.shmCreate i a) := by
  unfold shmCreate
  cases s.file with
  | none => exact .of_pc ha rfl hpc (by decide)
  | some f =>
    refine .of_pc ha rfl hpc ?_
    change StartPc.threwFailedToOpen.remaining < StartPc.creating.remaining
    decide

theorem Startup.moves_initNewFile {step : InitStep} (ha : s.agents[i]? = some a)
    (hpc : a.pc = .initializing step) : s.Moves i a { a with
      pc := match step.next with
        | some next => .initializing next
        | none => .registering } (s.initNewFile i a f step) := by
  refine .of_pc ha rfl hpc ?_
  cases hnext : step.next with
  | none =>
    have hlast : step = .magic := by cases step <;> cases hnext; rfl
    rw [hlast]
    decide
  | some next => exact InitStep.remaining_next step next hnext

theorem Startup.moves_checkMagic (ha : s.agents[i]? = some a) (hpc : a.pc = .checkingMagic) :
    s.Moves i a { a with
      pc := if f.size = 0 then .faulted
        else if f.magic ≠ MAGIC then .threwUninitialized
        else .checkingSize } (s.checkMagic i a f) := by
  refine .of_pc ha rfl hpc ?_
  split
  · decide
  · split <;> decide

/-- Whether the sizes differ or not, the agent ends up with the file's. -/
theorem Startup.moves_checkSize (ha : s.agents[i]? = some a) (hpc : a.pc = .checkingSize)
    (havailable : a.queueSizeBytes = a.availableQueueSizeBytes + sizeofGlobalHeader) :
    s.Moves i a { a with
      queueSizeBytes := f.queueSizeBytes
      availableQueueSizeBytes := f.queueSizeBytes - sizeofGlobalHeader
      pc := .registering } (s.checkSize i a f) := by
  refine ⟨ha, ?_, rfl, hpc ▸ (by decide : StartPc.registering.remaining < _)⟩
  unfold checkSize
  dsimp only
  split
  · rfl
  · rename_i hsame
    have heq : f.queueSizeBytes = a.queueSizeBytes := not_not.mp hsame
    rw [heq, havailable, Nat.add_sub_cancel, ← havailable]
    rfl

theorem Startup.moves_register (ha : s.agents[i]? = some a) (hpc : a.pc = .registering) :
    s.Moves i a { a with
      absReadOffset := if a.isWriter then a.absReadOffset
        else (unwrap f.readersAndWriteOffset).returnAddReader.1.writeOffset.toNat
      pc := .attached } (s.register i a f) := by
  refine ⟨ha, ?_, rfl, hpc ▸ (by decide : StartPc.attached.remaining < _)⟩
  unfold register
  split <;> rfl

/-! ### The phases of a start -/

def InitStep.rank : InitStep → Nat
  | .ftruncate => 0
  | .memset => 1
  | .readersAndWriteOffset => 2
  | .queueSizeBytes => 3
  | .messageCount => 4
  | .numWriters => 5
  | .readOffset => 6
  | .magic => 7

/-- What the file holds when its creator gets to `step`. -/
structure ShmFile.Written (f : ShmFile) (total : Nat) (step : InitStep) : Prop where
  magic : f.magic = 0
  word : f.readersAndWriteOffset = 0
  writers : f.numWriters = 0
  size : 1 ≤ step.rank → f.size = total
  queueSize : 4 ≤ step.rank → f.queueSizeBytes = total

/-- Whoever is past the checks has the size of the file. -/
def Agent.Settled (a : Agent) (total : Nat) : Prop :=
  a.pc.early = true ∨ a.pc = .checkingSize ∨
    (a.pc = .registering ∨ a.pc = .attached) ∧ a.queueSizeBytes = total

/-- The file is initialised, and its counters count the attached agents, each
modulo its width. -/
structure Startup.Ready (s : Startup) (f : ShmFile) (total : Nat) : Prop where
  magic : f.magic = MAGIC
  size : f.size = total
  queueSize : f.queueSizeBytes = total
  settled : ∀ a ∈ s.agents, a.Settled total
  readers : f.readersAndWriteOffset.toNat % 256 = s.attachedReaders % 256
  writers : f.numWriters = s.attachedWriters % 2 ^ 32

/-- There is no file, its creator is initialising it, or it is ready. -/
inductive Startup.Phase (params : List IpcQueueParameters) (s : Startup) : Prop where
  | absent (hfile : s.file = none) (hcreator : s.creator = none)
      (hagents : ∀ a ∈ s.agents, a.pc = .opening ∨ a.pc = .creating)
  | initializing {c : Nat} {a : Agent} {step : InitStep} {f : ShmFile} (hfile : s.file = some f)
      (hcreator : s.creator = some c) (hc : s.agents[c]? = some a)
      (hpc : a.pc = .initializing step) (hwritten : f.Written a.queueSizeBytes step)
      (hothers : ∀ j b, s.agents[j]? = some b → j ≠ c → b.pc.early = true)
  | ready {c : Nat} {p : IpcQueueParameters} {f : ShmFile} (hfile : s.file = some f)
      (hcreator : s.creator = some c) (hp : params[c]? = some p)
      (hc : ∃ a, s.agents[c]? = some a ∧ (a.pc = .registering ∨ a.pc = .attached))
      (hready : s.Ready f (p.queueSize + sizeofGlobalHeader))

structure StartInv (params : List IpcQueueParameters) (s : Startup) : Prop where
  follows : ∀ (i : Nat) (a : Agent), s.agents[i]? = some a →
    ∃ p, params[i]? = some p ∧ a.Follows p
  length : s.agents.length = params.length
  phase : s.Phase params

theorem StartInv.init (params : List IpcQueueParameters) : StartInv params (.init params) where
  follows := by
    intro i a ha
    simp only [Startup.init, List.getElem?_map, Option.map_eq_some_iff] at ha
    obtain ⟨p, hp, rfl⟩ := ha
    exact ⟨p, hp, rfl, fun _ _ => rfl, rfl⟩
  length := by
    simp [Startup.init]
  phase := by
    refine .absent rfl rfl ?_
    intro a ha
    obtain ⟨p, -, rfl⟩ := List.mem_map.mp ha
    exact Or.inl rfl

theorem Startup.Moves.not_attached {a' : Agent} (h : s.Moves i a a' t) : a.pc ≠ .attached := by
  intro hpc
  have hlt := h.remaining
  rw [hpc] at hlt
  exact absurd hlt (Nat.not_lt_zero _)

/-- A step that attaches nobody keeps both counts. -/
theorem Startup.Moves.counts {a' : Agent} (h : s.Moves i a a' t) (hpc : a'.pc ≠ .attached) :
    t.attachedReaders = s.attachedReaders ∧ t.attachedWriters = s.attachedWriters := by
  have hbefore := h.not_attached
  unfold Startup.attachedReaders Startup.attachedWriters
  rw [h.agents]
  constructor
  · exact countP_set_of_eq _ h.agent (by simp [hpc, hbefore])
  · exact countP_set_of_eq _ h.agent (by simp [hpc, hbefore])

/-- A step before the registration keeps a file that is ready. -/
theorem Startup.Ready.move {total : Nat} {a' : Agent} (h : s.Ready f total)
    (hmoves : s.Moves i a a' t) (hpc : a'.pc ≠ .attached) (hsettled : a'.Settled total) :
    t.Ready f total := by
  obtain ⟨hreaders, hwriters⟩ := hmoves.counts hpc
  refine ⟨h.magic, h.size, h.queueSize, ?_, ?_, ?_⟩
  · rw [hmoves.agents]
    exact forall_mem_set h.settled hsettled
  · rw [hreaders]
    exact h.readers
  · rw [hwriters]
    exact h.writers

/-- Another agent than the creator moves while the file is being initialised. -/
theorem Startup.Moves.others {c : Nat} {a' : Agent} (hmoves : s.Moves i a a' t)
    (hothers : ∀ (j : Nat) (b : Agent), s.agents[j]? = some b → j ≠ c → b.pc.early = true)
    (hearly : i ≠ c → a'.pc.early = true) :
    ∀ (j : Nat) (b : Agent), t.agents[j]? = some b → j ≠ c → b.pc.early = true := by
  intro j d hd hj
  rw [hmoves.agents] at hd
  rcases getElem?_set_cases hd with ⟨rfl, rfl⟩ | ⟨-, hold⟩
  · exact hearly hj
  · exact hothers j d hold hj

/-- The creator stays registering or attached when somebody moves. -/
theorem Startup.Moves.creator {c : Nat} {a' : Agent} (hmoves : s.Moves i a a' t)
    (hc : ∃ a, s.agents[c]? = some a ∧ (a.pc = .registering ∨ a.pc = .attached))
    (hkeeps : a.pc = .registering → a'.pc = .attached) :
    ∃ a, t.agents[c]? = some a ∧ (a.pc = .registering ∨ a.pc = .attached) := by
  obtain ⟨d, hd, hpc⟩ := hc
  rw [hmoves.agents]
  by_cases hne : i = c
  · have heq : a = d := Option.some.inj (hmoves.agent.symm.trans (hne ▸ hd))
    have hlt := lt_of_getElem? hmoves.agent
    refine ⟨a', by rw [← hne]; simp [hlt], ?_⟩
    rcases hpc with hpc | hpc
    · exact Or.inr (hkeeps (heq ▸ hpc))
    · exact absurd (heq ▸ hpc) hmoves.not_attached
  · exact ⟨d, by rw [List.getElem?_set_ne hne]; exact hd, hpc⟩

/-! ### Every step keeps the phase or leads to the next -/

theorem ShmFile.Written.init {total : Nat} {step next : InitStep} (h : f.Written total step)
    (hnext : step.next = some next) : (f.init total step).Written total next := by
  cases step <;> cases hnext
  · exact ⟨h.magic, h.word, h.writers, fun _ => rfl, fun hrank => absurd hrank (by decide)⟩
  · exact ⟨h.magic, h.word, h.writers, fun _ => h.size (by decide),
      fun hrank => absurd hrank (by decide)⟩
  · exact ⟨h.magic, rfl, h.writers, fun _ => h.size (by decide),
      fun hrank => absurd hrank (by decide)⟩
  · exact ⟨h.magic, h.word, h.writers, fun _ => h.size (by decide), fun _ => rfl⟩
  · exact ⟨h.magic, h.word, h.writers, fun _ => h.size (by decide),
      fun _ => h.queueSize (by decide)⟩
  · exact ⟨h.magic, h.word, rfl, fun _ => h.size (by decide), fun _ => h.queueSize (by decide)⟩
  · exact ⟨h.magic, h.word, h.writers, fun _ => h.size (by decide),
      fun _ => h.queueSize (by decide)⟩

namespace Startup

/-- While the creator initialises the file, the others are not the creator. -/
theorem ne_creator {c : Nat} {step : InitStep} (hc : s.agents[c]? = some b)
    (hinit : b.pc = .initializing step) (ha : s.agents[i]? = some a) (hpc : a.pc.early = true) :
    i ≠ c := by
  rintro rfl
  rw [Option.some.inj (ha.symm.trans hc), hinit] at hpc
  cases hpc

/-- An agent that neither initialises nor has seen the magic stays such an agent. -/
theorem Phase.move_early (h : s.Phase params) {a' : Agent} (hexists : s.file = some f)
    (hfile : t.file = s.file) (hcreator' : t.creator = s.creator) (hmoves : s.Moves i a a' t)
    (hpc : a.pc.early = true) (hpc' : a'.pc.early = true) : t.Phase params := by
  have hattached : a'.pc ≠ .attached := by
    intro heq
    rw [heq] at hpc'
    cases hpc'
  cases h with
  | absent hnone =>
    rw [hnone] at hexists
    cases hexists
  | initializing hsome hcreator hc hinit hwritten hothers =>
    have hne := ne_creator hc hinit hmoves.agent hpc
    refine .initializing (hfile.trans hsome) (hcreator'.trans hcreator) ?_ hinit hwritten
      (hmoves.others hothers fun _ => hpc')
    rw [hmoves.agents, List.getElem?_set_ne hne]
    exact hc
  | ready hsome hcreator hp hc hready =>
    refine .ready (hfile.trans hsome) (hcreator'.trans hcreator) hp (hmoves.creator hc ?_)
      (hready.move hmoves hattached (Or.inl hpc'))
    intro hreg
    rw [hreg] at hpc
    cases hpc

theorem Phase.shmOpen (h : s.Phase params) (ha : s.agents[i]? = some a) (hpc : a.pc = .opening) :
    (s.shmOpen i a).Phase params := by
  have hmoves := moves_shmOpen ha hpc
  cases hfile : s.file with
  | none =>
    rw [hfile] at hmoves
    cases h with
    | absent _ hcreator hagents =>
      refine .absent hfile hcreator ?_
      rw [hmoves.agents]
      exact forall_mem_set hagents (Or.inr rfl)
    | initializing hsome => rw [hfile] at hsome; cases hsome
    | ready hsome => rw [hfile] at hsome; cases hsome
  | some f =>
    rw [hfile] at hmoves
    exact h.move_early hfile rfl rfl hmoves (by rw [hpc]; rfl) rfl

theorem Phase.shmCreate (h : s.Phase params) (ha : s.agents[i]? = some a)
    (hpc : a.pc = .creating) : (s.shmCreate i a).Phase params := by
  have hmoves := moves_shmCreate ha hpc
  cases hfile : s.file with
  | none =>
    rw [hfile] at hmoves
    cases h with
    | absent _ hcreator hagents =>
      have hnew : s.shmCreate i a = { s.setAgent i a (.initializing .ftruncate) with
          file := some .empty, creator := some i } := by
        rw [Startup.shmCreate, hfile]
      have hlt := lt_of_getElem? ha
      rw [hnew]
      refine .initializing rfl rfl (List.getElem?_set_self hlt) rfl ⟨rfl, rfl, rfl, ?_, ?_⟩ ?_
      · intro hrank
        cases hrank
      · intro hrank
        cases hrank
      · intro j d hd hj
        rcases getElem?_set_cases hd with ⟨heq, -⟩ | ⟨-, hold⟩
        · exact absurd heq hj
        · rcases hagents d (List.mem_of_getElem? hold) with hpc' | hpc'
          · rw [hpc']
            rfl
          · rw [hpc']
            rfl
    | initializing hsome => rw [hfile] at hsome; cases hsome
    | ready hsome => rw [hfile] at hsome; cases hsome
  | some f =>
    rw [hfile] at hmoves
    have hsame : s.shmCreate i a = s.setAgent i a .threwFailedToOpen := by
      rw [Startup.shmCreate, hfile]
    rw [hsame] at hmoves ⊢
    exact h.move_early hfile rfl rfl hmoves (by rw [hpc]; rfl) rfl

theorem Phase.checkMagic (h : s.Phase params) (ha : s.agents[i]? = some a)
    (hpc : a.pc = .checkingMagic) (hf : s.file = some f) : (s.checkMagic i a f).Phase params := by
  have hmoves := moves_checkMagic (f := f) ha hpc
  have hearly : a.pc.early = true := by rw [hpc]; rfl
  cases h with
  | absent hnone => rw [hf] at hnone; cases hnone
  | initializing hsome hcreator hc hinit hwritten hothers =>
    have heq := Option.some.inj (hsome.symm.trans hf)
    have hmagic : f.magic ≠ MAGIC := by
      rw [← heq, hwritten.magic]
      decide
    refine (Phase.initializing hsome hcreator hc hinit hwritten hothers).move_early hf rfl rfl
      hmoves hearly ?_
    rw [if_pos hmagic]
    split <;> rfl
  | ready hsome hcreator hp hc hready =>
    have heq := Option.some.inj (hsome.symm.trans hf)
    have hsize : f.size ≠ 0 := by
      rw [← heq, hready.size]
      unfold sizeofGlobalHeader
      omega
    rw [if_neg hsize, if_neg (not_not_intro (heq ▸ hready.magic))] at hmoves
    refine .ready hsome hcreator hp (hmoves.creator hc ?_) (hready.move hmoves ?_ ?_)
    · intro hreg
      rw [hpc] at hreg
      cases hreg
    · intro hattached
      cases hattached
    · exact Or.inr (Or.inl rfl)

/-- An agent that is past the magic check is past it because the file is ready. -/
theorem Phase.ready_of_late (h : s.Phase params) (ha : s.agents[i]? = some a)
    (hlate : a.pc.early = false) (hnot : ∀ step, a.pc ≠ .initializing step) :
    ∃ c p f, s.file = some f ∧ s.creator = some c ∧ params[c]? = some p ∧
      (∃ a, s.agents[c]? = some a ∧ (a.pc = .registering ∨ a.pc = .attached)) ∧
      s.Ready f (p.queueSize + sizeofGlobalHeader) := by
  cases h with
  | absent _ _ hagents =>
    rcases hagents a (List.mem_of_getElem? ha) with hpc | hpc
    · rw [hpc] at hlate
      cases hlate
    · rw [hpc] at hlate
      cases hlate
  | @initializing c b step f _ _ hc hinit _ hothers =>
    by_cases hne : i = c
    · rw [hne] at ha
      rw [Option.some.inj (hc.symm.trans ha)] at hinit
      exact absurd hinit (hnot step)
    · rw [hothers i a ha hne] at hlate
      cases hlate
  | ready hsome hcreator hp hc hready => exact ⟨_, _, _, hsome, hcreator, hp, hc, hready⟩

theorem Phase.checkSize (h : s.Phase params) (ha : s.agents[i]? = some a)
    (hpc : a.pc = .checkingSize) (hf : s.file = some f)
    (havailable : a.queueSizeBytes = a.availableQueueSizeBytes + sizeofGlobalHeader) :
    (s.checkSize i a f).Phase params := by
  have hmoves := moves_checkSize (f := f) ha hpc havailable
  obtain ⟨c, p, f', hsome, hcreator, hp, hc, hready⟩ :=
    h.ready_of_late ha (by rw [hpc]; rfl) (by rw [hpc]; simp)
  have heq := Option.some.inj (hsome.symm.trans hf)
  refine .ready hsome hcreator hp (hmoves.creator hc ?_) (hready.move hmoves ?_ ?_)
  · intro hreg
    rw [hpc] at hreg
    cases hreg
  · intro hattached
    cases hattached
  · exact Or.inr (Or.inr ⟨Or.inl rfl, by rw [← heq]; exact hready.queueSize⟩)

theorem counts_eq_zero (h : ∀ a ∈ s.agents, a.pc ≠ .attached) :
    s.attachedReaders = 0 ∧ s.attachedWriters = 0 := by
  unfold attachedReaders attachedWriters
  rw [List.countP_eq_zero, List.countP_eq_zero]
  constructor
  · intro a ha
    simp [h a ha]
  · intro a ha
    simp [h a ha]

/-- The last store of the creator makes the file ready. -/
theorem Phase.initNewFile {step : InitStep} (h : s.Phase params) (ha : s.agents[i]? = some a)
    (hpc : a.pc = .initializing step) (hf : s.file = some f)
    (hp : ∃ p, params[i]? = some p ∧ a.Follows p) : (s.initNewFile i a f step).Phase params := by
  have hmoves := moves_initNewFile (f := f) ha hpc
  have hlt := lt_of_getElem? ha
  obtain ⟨p, hp, hfollows⟩ := hp
  have htotal : a.queueSizeBytes = p.queueSize + sizeofGlobalHeader :=
    hfollows.queueSizeBytes (by rw [hpc]; simp) (by rw [hpc]; simp)
  cases h with
  | absent hnone => rw [hf] at hnone; cases hnone
  | @initializing c b step' f' hsome hcreator hc hinit hwritten hothers =>
    have hsame : i = c := by
      by_contra hne
      have hearly := hothers i a ha hne
      rw [hpc] at hearly
      cases hearly
    subst hsame
    obtain rfl := Option.some.inj (ha.symm.trans hc)
    obtain rfl := Option.some.inj (hf.symm.trans hsome)
    obtain rfl : step' = step := by
      rw [hpc] at hinit
      exact (StartPc.initializing.inj hinit).symm
    cases hnext : step'.next with
    | some next =>
      rw [hnext] at hmoves
      refine .initializing rfl hcreator (a := { a with pc := .initializing next }) ?_ rfl
        (hwritten.init hnext) (hmoves.others hothers fun hne => absurd rfl hne)
      rw [hmoves.agents]
      exact List.getElem?_set_self hlt
    | none =>
      obtain rfl : step' = .magic := by cases step' <;> cases hnext; rfl
      have hearly : ∀ b ∈ (s.initNewFile i a f .magic).agents,
          b.pc.early = true ∨ b.pc = .registering ∧ b.queueSizeBytes = a.queueSizeBytes := by
        intro b hb
        obtain ⟨j, hj⟩ := List.mem_iff_getElem?.mp hb
        rw [hmoves.agents] at hj
        rcases getElem?_set_cases hj with ⟨-, rfl⟩ | ⟨hne, hold⟩
        · exact Or.inr ⟨rfl, rfl⟩
        · exact Or.inl (hothers j b hold hne)
      obtain ⟨hreaders, hwriters⟩ : (s.initNewFile i a f .magic).attachedReaders = 0 ∧
          (s.initNewFile i a f .magic).attachedWriters = 0 := by
        apply counts_eq_zero
        intro b hb hattached
        rcases hearly b hb with hpc' | ⟨hpc', -⟩
        · rw [hattached] at hpc'
          cases hpc'
        · rw [hattached] at hpc'
          cases hpc'
      refine .ready rfl hcreator hp ⟨{ a with pc := .registering }, ?_, Or.inl rfl⟩
        ⟨rfl, (hwritten.size (by decide)).trans htotal,
          (hwritten.queueSize (by decide)).trans htotal, ?_, ?_, ?_⟩
      · rw [hmoves.agents]
        exact List.getElem?_set_self hlt
      · intro b hb
        rcases hearly b hb with hpc' | ⟨hpc', hsize⟩
        · exact Or.inl hpc'
        · exact Or.inr (Or.inr ⟨Or.inl hpc', hsize.trans htotal⟩)
      · rw [hreaders]
        change f.readersAndWriteOffset.toNat % 256 = _
        rw [hwritten.word]
        rfl
      · rw [hwriters]
        exact hwritten.writers
  | ready hsome hcreator hp hc hready =>
    rcases hready.settled a (List.mem_of_getElem? ha) with hearly | hsize | ⟨hreg | hatt, -⟩
    · rw [hpc] at hearly
      cases hearly
    · rw [hpc] at hsize
      cases hsize
    · rw [hpc] at hreg
      cases hreg
    · rw [hpc] at hatt
      cases hatt

/-- An agent that attaches is counted on its side. -/
theorem Moves.counts_attached {a' : Agent} (hmoves : s.Moves i a a' t) (hpc : a'.pc = .attached) :
    t.attachedReaders = s.attachedReaders + (if a.isWriter then 0 else 1) ∧
      t.attachedWriters = s.attachedWriters + if a.isWriter then 1 else 0 := by
  have hbefore := hmoves.not_attached
  have hwriter := hmoves.isWriter
  have hreaders := countP_set (y := a') (fun a => decide (a.pc = .attached) && !a.isWriter)
    hmoves.agent
  have hwriters := countP_set (y := a') (fun a => decide (a.pc = .attached) && a.isWriter)
    hmoves.agent
  unfold attachedReaders attachedWriters
  rw [hmoves.agents]
  cases hw : a.isWriter with
  | true =>
    rw [hw] at hwriter
    simp [hbefore, hpc, hwriter] at hreaders hwriters
    simp [hreaders, hwriters]
  | false =>
    rw [hw] at hwriter
    simp [hbefore, hpc, hwriter] at hreaders hwriters
    simp [hreaders, hwriters]

theorem Phase.register (h : s.Phase params) (ha : s.agents[i]? = some a)
    (hpc : a.pc = .registering) (hf : s.file = some f) : (s.register i a f).Phase params := by
  have hmoves := moves_register (f := f) ha hpc
  obtain ⟨c, p, f', hsome, hcreator, hp, hc, hready⟩ :=
    h.ready_of_late ha (by rw [hpc]; rfl) (by rw [hpc]; simp)
  obtain rfl := Option.some.inj (hf.symm.trans hsome)
  obtain ⟨hreaders, hwriters⟩ := hmoves.counts_attached rfl
  have hcreator' := hmoves.creator hc fun _ => rfl
  have hsettled : ∀ b ∈ (s.register i a f).agents,
      b.Settled (p.queueSize + sizeofGlobalHeader) := by
    rw [hmoves.agents]
    refine forall_mem_set hready.settled (Or.inr (Or.inr ⟨Or.inr rfl, ?_⟩))
    rcases hready.settled a (List.mem_of_getElem? ha) with hearly | hsize | ⟨-, hsize⟩
    · rw [hpc] at hearly
      cases hearly
    · rw [hpc] at hsize
      cases hsize
    · exact hsize
  cases hw : a.isWriter with
  | true =>
    simp only [hw, if_true] at hreaders hwriters
    have hnew : (s.register i a f) = { s.setAgent i a .attached with
        file := some { f with numWriters := (f.numWriters + 1) % 2 ^ 32 } } := by
      simp [Startup.register, hw]
    have hfile : (s.register i a f).file =
        some { f with numWriters := (f.numWriters + 1) % 2 ^ 32 } := by rw [hnew]
    refine .ready hfile (by rw [hnew]; exact hcreator) hp hcreator'
      ⟨hready.magic, hready.size, hready.queueSize, hsettled, ?_, ?_⟩
    · rw [hreaders]
      exact hready.readers
    · change (f.numWriters + 1) % 2 ^ 32 = _
      rw [hwriters, hready.writers, Nat.mod_add_mod]
  | false =>
    simp only [hw, Bool.false_eq_true, if_false] at hreaders hwriters
    have hnew : (s.register i a f) = { s.setAgent i { a with absReadOffset :=
        (unwrap f.readersAndWriteOffset).returnAddReader.1.writeOffset.toNat } .attached with
        file := some { f with
          readersAndWriteOffset := (unwrap f.readersAndWriteOffset).returnAddReader.2 } } := by
      simp [Startup.register, hw]
    have hfile : (s.register i a f).file = some { f with
        readersAndWriteOffset := (unwrap f.readersAndWriteOffset).returnAddReader.2 } := by
      rw [hnew]
    refine .ready hfile (by rw [hnew]; exact hcreator) hp hcreator'
      ⟨hready.magic, hready.size, hready.queueSize, hsettled, ?_, ?_⟩
    · have hadded := returnAddReader_mod f.readersAndWriteOffset
      have hold := hready.readers
      change (unwrap f.readersAndWriteOffset).returnAddReader.2.toNat % 256 = _
      omega
    · rw [hwriters]
      exact hready.writers

end Startup

/-- No file without its creator, and a stored magic means a file that is ready. -/
theorem Startup.Phase.ready_of_magic (h : s.Phase params) (hf : s.file = some f)
    (hmagic : f.magic = MAGIC) : ∃ c p, s.creator = some c ∧ params[c]? = some p ∧
      s.Ready f (p.queueSize + sizeofGlobalHeader) ∧ ∀ a ∈ s.agents, ∀ step,
        a.pc ≠ .initializing step := by
  cases h with
  | absent hnone => rw [hf] at hnone; cases hnone
  | initializing hsome _ _ _ hwritten =>
    rw [← Option.some.inj (hsome.symm.trans hf), hwritten.magic] at hmagic
    exact absurd hmagic (by decide)
  | ready hsome hcreator hp hc hready =>
    obtain rfl := Option.some.inj (hf.symm.trans hsome)
    refine ⟨_, _, hcreator, hp, hready, ?_⟩
    intro a ha step hpc
    have hsettled := hready.settled a ha
    simp [Agent.Settled, hpc, StartPc.early] at hsettled

theorem Agent.Follows.move {p : IpcQueueParameters} {pc : StartPc} (h : a.Follows p)
    (hreg : a.pc ≠ .registering) (hatt : a.pc ≠ .attached) :
    Agent.Follows { a with pc := pc } p :=
  ⟨h.isWriter, fun _ _ => h.queueSizeBytes hreg hatt, h.available⟩

theorem Startup.Moves.startInv {a' : Agent} (hmoves : s.Moves i a a' t) (h : StartInv params s)
    (hkeeps : ∀ p, a.Follows p → a'.Follows p) (hphase : t.Phase params) : StartInv params t where
  follows := by
    intro j b hb
    rw [hmoves.agents] at hb
    rcases getElem?_set_cases hb with ⟨rfl, rfl⟩ | ⟨-, hold⟩
    · obtain ⟨p, hp, hfollows⟩ := h.follows j a hmoves.agent
      exact ⟨p, hp, hkeeps p hfollows⟩
    · exact h.follows j b hold
  length := by
    rw [hmoves.agents, List.length_set]
    exact h.length
  phase := hphase

theorem StartInv.step (h : StartInv params s) (hstep : s.step i = some t) :
    StartInv params t := by
  have hphase := h.phase
  cases Startup.Stepped.of_step hstep with
  | opened ha hpc =>
    refine (Startup.moves_shmOpen ha hpc).startInv h ?_ (hphase.shmOpen ha hpc)
    exact fun p hp => hp.move (by rw [hpc]; simp) (by rw [hpc]; simp)
  | created ha hpc =>
    refine (Startup.moves_shmCreate ha hpc).startInv h ?_ (hphase.shmCreate ha hpc)
    exact fun p hp => hp.move (by rw [hpc]; simp) (by rw [hpc]; simp)
  | initialized ha hpc hf =>
    refine (Startup.moves_initNewFile ha hpc).startInv h ?_
      (hphase.initNewFile ha hpc hf (h.follows i _ ha))
    exact fun p hp => hp.move (by rw [hpc]; simp) (by rw [hpc]; simp)
  | checkedMagic ha hpc hf =>
    refine (Startup.moves_checkMagic ha hpc).startInv h ?_ (hphase.checkMagic ha hpc hf)
    exact fun p hp => hp.move (by rw [hpc]; simp) (by rw [hpc]; simp)
  | @checkedSize a f ha hpc hf =>
    obtain ⟨p, -, hfollows⟩ := h.follows i _ ha
    refine (Startup.moves_checkSize ha hpc hfollows.available).startInv h ?_
      (hphase.checkSize ha hpc hf hfollows.available)
    obtain ⟨c, p', f', hsome, -, -, -, hready⟩ :=
      hphase.ready_of_late ha (by rw [hpc]; rfl) (by rw [hpc]; simp)
    obtain rfl := Option.some.inj (hf.symm.trans hsome)
    intro q hq
    refine ⟨hq.isWriter, fun hreg => absurd rfl hreg, ?_⟩
    dsimp only
    rw [hready.queueSize, Nat.add_sub_cancel]
  | registered ha hpc hf =>
    refine (Startup.moves_register ha hpc).startInv h ?_
      (hphase.register ha hpc hf)
    exact fun p hp => ⟨hp.isWriter, fun _ hatt => absurd rfl hatt, hp.available⟩

theorem StartInv.of_reach
    (hreach : Reach Startup.step (fun _ _ => True) (.init params) s) : StartInv params s :=
  hreach.invariant (.init params) (fun _ _ _ h _ hstep => h.step hstep)

/-! ### Every constructor comes to an end -/

theorem Startup.Stepped.moves (hstep : s.Stepped i t) : ∃ a a', s.Moves i a a' t := by
  cases hstep with
  | opened ha hpc => exact ⟨_, _, moves_shmOpen ha hpc⟩
  | created ha hpc => exact ⟨_, _, moves_shmCreate ha hpc⟩
  | initialized ha hpc => exact ⟨_, _, moves_initNewFile ha hpc⟩
  | checkedMagic ha hpc => exact ⟨_, _, moves_checkMagic ha hpc⟩
  | @checkedSize a f ha hpc =>
    refine ⟨a, _, ha, rfl, ?_, hpc ▸ (by decide : StartPc.registering.remaining < _)⟩
    dsimp only
    split <;> rfl
  | registered ha hpc => exact ⟨_, _, moves_register ha hpc⟩

/-- The file is ready, and agent `i` is on its way to be attached to it. -/
def Startup.Boards (s : Startup) (i : Nat) : Prop :=
  (∃ f, s.file = some f ∧ f.magic = MAGIC) ∧
    ∃ a, s.agents[i]? = some a ∧ (a.pc = .opening ∨ a.pc = .checkingMagic ∨
      a.pc = .checkingSize ∨ a.pc = .registering ∨ a.pc = .attached)

theorem Startup.Stepped.magic (h : StartInv params s) (hstep : s.Stepped i t)
    (hf : s.file = some f) (hmagic : f.magic = MAGIC) :
    ∃ f', t.file = some f' ∧ f'.magic = MAGIC := by
  obtain ⟨c, p, -, -, -, hnone⟩ := h.phase.ready_of_magic hf hmagic
  cases hstep with
  | opened => exact ⟨f, hf, hmagic⟩
  | created =>
    unfold shmCreate
    rw [hf]
    exact ⟨f, hf, hmagic⟩
  | initialized ha hpc => exact absurd hpc (hnone _ (List.mem_of_getElem? ha) _)
  | checkedMagic => exact ⟨f, hf, hmagic⟩
  | checkedSize => exact ⟨f, hf, hmagic⟩
  | registered _ _ hf' =>
    obtain rfl := Option.some.inj (hf.symm.trans hf')
    unfold register
    split
    · exact ⟨_, rfl, hmagic⟩
    · exact ⟨_, rfl, hmagic⟩

theorem Startup.Boards.step {j : Nat} (hi : s.Boards i) (h : StartInv params s)
    (hstep : s.Stepped j t) : t.Boards i := by
  obtain ⟨⟨f, hf, hmagic⟩, a, ha, hpc⟩ := hi
  refine ⟨hstep.magic h hf hmagic, ?_⟩
  obtain ⟨c, p, -, -, hready, -⟩ := h.phase.ready_of_magic hf hmagic
  have hmoved : ∀ {b b' : Agent}, s.Moves j b b' t →
      (j = i → b'.pc = .checkingMagic ∨ b'.pc = .checkingSize ∨ b'.pc = .registering ∨
        b'.pc = .attached) →
      ∃ a, t.agents[i]? = some a ∧ (a.pc = .opening ∨ a.pc = .checkingMagic ∨
        a.pc = .checkingSize ∨ a.pc = .registering ∨ a.pc = .attached) := by
    intro b b' hmoves hb'
    rw [hmoves.agents]
    by_cases hji : j = i
    · rw [hji, List.getElem?_set_self (lt_of_getElem? ha)]
      exact ⟨b', rfl, Or.inr (hb' hji)⟩
    · rw [List.getElem?_set_ne hji]
      exact ⟨a, ha, hpc⟩
  cases hstep with
  | opened hb hpcb =>
    refine hmoved (moves_shmOpen hb hpcb) fun _ => ?_
    rw [hf]
    exact Or.inl rfl
  | created hb hpcb =>
    refine hmoved (moves_shmCreate hb hpcb) ?_
    rintro rfl
    rw [Option.some.inj (hb.symm.trans ha)] at hpcb
    simp [hpcb] at hpc
  | initialized hb hpcb =>
    refine hmoved (moves_initNewFile hb hpcb) ?_
    rintro rfl
    rw [Option.some.inj (hb.symm.trans ha)] at hpcb
    simp [hpcb] at hpc
  | checkedMagic hb hpcb hf' =>
    obtain rfl := Option.some.inj (hf.symm.trans hf')
    refine hmoved (moves_checkMagic hb hpcb) fun _ => ?_
    have hsize : f.size ≠ 0 := by
      rw [hready.size]
      unfold sizeofGlobalHeader
      omega
    rw [if_neg hsize, if_neg (not_not_intro hmagic)]
    exact Or.inr (Or.inl rfl)
  | checkedSize hb hpcb =>
    obtain ⟨q, -, hfollows⟩ := h.follows j _ hb
    exact hmoved (moves_checkSize hb hpcb hfollows.available) fun _ => Or.inr (Or.inr (Or.inl rfl))
  | registered hb hpcb =>
    exact hmoved (moves_register hb hpcb) fun _ => Or.inr (Or.inr (Or.inr rfl))

theorem Startup.Phase.counts (h : s.Phase params) (hparams : s.agents ≠ [])
    (hfinished : ∀ a ∈ s.agents, a.pc.finished = true) : ∃ f, s.file = some f ∧
      (unwrap f.readersAndWriteOffset).numReaders.toNat = s.attachedReaders % 256 ∧
        f.numWriters = s.attachedWriters % 2 ^ 32 := by
  cases h with
  | absent _ _ hagents =>
    obtain ⟨a, ha⟩ := List.exists_mem_of_ne_nil _ hparams
    have hdone := hfinished a ha
    rcases hagents a ha with hpc | hpc
    · rw [hpc] at hdone
      cases hdone
    · rw [hpc] at hdone
      cases hdone
  | initializing _ _ hc hpc =>
    have hdone := hfinished _ (List.mem_of_getElem? hc)
    rw [hpc] at hdone
    cases hdone
  | ready hfile _ _ _ hready =>
    exact ⟨_, hfile, (unwrap_numReaders_toNat _).trans hready.readers, hready.writers⟩

end

/-- A writing queue of 64 bytes and a reading one that asks for 128. -/
def writer64 : IpcQueueParameters :=
  ⟨64, true, RingSize.smallest.powerOfTwo, RingSize.smallest.le_max⟩

end MockExchange
