import MockExchange.Handles
import MockExchange.Lib.HandleTable

/-!
# The accounts of the handles

Between two calls from Python the endpoints and the C++ objects belong to each
other one to one, every object's queue is open, and every file counts the queues
that are attached to it. Each way to change the accounts (a new file, a name
given or taken, an object more or less on a file, a claim) keeps them, and
opening and closing are made of these.
-/

namespace MockExchange

open Transition ListUpdate UnpackedReadersAndWriterOffset

/-! ### Counters -/

/-- The queue of the object in a slot. -/
def queueOf (slot : Option Archive) : Option IpcQueue := slot.bind Archive.queue

/-- The slot holds an object whose queue is attached to the file. -/
def attachedTo (file : Nat) (isWriter : Bool) (slot : Option Archive) : Bool :=
  (queueOf slot).any fun queue => queue.isWriter == isWriter && decide (queue.file = file)

/-- The header of a file, and the name that leads to it, tell who is attached. -/
structure Counted (shm : SharedMemory) (heap : List (Option Archive)) : Prop where
  fdOpen : ∀ slot ∈ heap, ∀ queue, queueOf slot = some queue → queue.fdOpen = true
  mapped : ∀ slot ∈ heap, ∀ queue, queueOf slot = some queue → ∃ f,
    shm.files[queue.file]? = some f ∧ queue.queueSizeBytes = f.queueSizeBytes ∧
      queue.queueSizeBytes = queue.availableQueueSizeBytes + sizeofGlobalHeader
  valid : ∀ f ∈ shm.files, f.magic = MAGIC ∧ sizeofGlobalHeader ≤ f.queueSizeBytes
  readers : ∀ (i : Nat) (f : ShmFile), shm.files[i]? = some f →
    f.readersAndWriteOffset.toNat % 256 = heap.countP (attachedTo i false) % 256
  writers : ∀ (i : Nat) (f : ShmFile), shm.files[i]? = some f →
    f.numWriters = heap.countP (attachedTo i true) % 2 ^ 32
  linked : ∀ name i, shm.names name = some i →
    ∃ slot ∈ heap, ∃ queue, queueOf slot = some queue ∧ queue.file = i
  named : ∀ name i, shm.names name = some i →
    ∀ slot ∈ heap, ∀ queue, queueOf slot = some queue → queue.file = i → queue.fileName = name

/-- The queue is the one its Python object asked for. -/
structure IpcQueue.Serves (queue : IpcQueue) (e : Endpoint) : Prop where
  isWriter : queue.isWriter = e.isPublication
  fileName : queue.fileName = e.fileName

/-- Between two calls from Python. -/
structure World.Accounts (w : World) : Prop where
  owned : HandleTable.Owned (w.endpoints.map Endpoint.handle) w.heap
  serves : ∀ (i : Nat) (e : Endpoint), w.endpoints[i]? = some e → ∀ handle,
    e.handle = some handle → ∃ queue,
      w.heap[handle]? = some (some ⟨e.isPublication, some queue⟩) ∧ queue.Serves e
  counted : Counted w.shm w.heap

section

variable {shm shm' : SharedMemory} {heap : List (Option Archive)} {slot : Option Archive}
  {queue : IpcQueue} {archive : Archive} {f : ShmFile} {file i k : Nat} {isWriter b : Bool}
  {params : IpcQueueParameters} {fileName : String}

theorem ShmFile.register_readers (f : ShmFile) :
    (f.register false).readersAndWriteOffset.toNat % 256 =
      (f.readersAndWriteOffset.toNat + 1) % 256 :=
  returnAddReader_mod f.readersAndWriteOffset

theorem ShmFile.deregister_readers (f : ShmFile) :
    (f.deregister false).readersAndWriteOffset.toNat % 256 =
      (f.readersAndWriteOffset.toNat + 255) % 256 :=
  returnSubReader_mod f.readersAndWriteOffset

theorem attachedTo_iff : attachedTo file isWriter slot = true ↔
    ∃ queue, queueOf slot = some queue ∧ queue.isWriter = isWriter ∧ queue.file = file := by
  simp [attachedTo, Option.any_eq_true]

theorem attachedTo_of (hq : queueOf slot = some queue) :
    attachedTo file isWriter slot = (queue.isWriter == isWriter && decide (queue.file = file)) := by
  rw [attachedTo, hq, Option.any_some]

theorem exists_attached (h : heap.countP (attachedTo file isWriter) ≠ 0) :
    ∃ slot ∈ heap, ∃ queue, queueOf slot = some queue ∧ queue.isWriter = isWriter ∧
      queue.file = file := by
  obtain ⟨slot, hslot, hattached⟩ := List.countP_pos_iff.mp (Nat.pos_of_ne_zero h)
  exact ⟨slot, hslot, attachedTo_iff.mp hattached⟩

/-- A name that is linked after another one was taken away. -/
theorem linked_of_unlinked {names : String → Option Nat} {name : String}
    (h : Function.update names fileName none name = some i) :
    name ≠ fileName ∧ names name = some i := by
  by_cases hname : name = fileName
  · rw [hname, Function.update_self] at h
    cases h
  · rw [Function.update_of_ne hname] at h
    exact ⟨hname, h⟩

namespace Counted

/-- A file that does not exist yet has no users. -/
theorem countP_eq_zero (h : Counted shm heap) (hi : shm.files.length ≤ i) :
    heap.countP (attachedTo i isWriter) = 0 := by
  by_contra hne
  obtain ⟨slot, hslot, queue, hq, -, hfile⟩ := exists_attached hne
  obtain ⟨f, hf, -, -⟩ := h.mapped slot hslot queue hq
  have hlt := lt_of_getElem? hf
  omega

theorem lt_of_linked (h : Counted shm heap) (hname : shm.names fileName = some i) :
    i < shm.files.length := by
  obtain ⟨slot, hslot, queue, hq, rfl⟩ := h.linked fileName i hname
  obtain ⟨f, hf, -, -⟩ := h.mapped slot hslot queue hq
  exact lt_of_getElem? hf

/-- Taking a name away. -/
theorem unlink (h : Counted shm heap) (fileName : String) :
    Counted { shm with names := Function.update shm.names fileName none } heap :=
  ⟨h.fdOpen, h.mapped, h.valid, h.readers, h.writers,
    fun name i hname => h.linked name i (linked_of_unlinked hname).2,
    fun name i hname => h.named name i (linked_of_unlinked hname).2⟩

/-- Giving a name to a file that all its users opened under that name. -/
theorem link (h : Counted shm heap) (fileName : String)
    (hused : ∃ slot ∈ heap, ∃ queue, queueOf slot = some queue ∧ queue.file = i)
    (hnamed : ∀ slot ∈ heap, ∀ queue, queueOf slot = some queue → queue.file = i →
      queue.fileName = fileName) :
    Counted { shm with names := Function.update shm.names fileName (some i) } heap := by
  refine ⟨h.fdOpen, h.mapped, h.valid, h.readers, h.writers, ?_, ?_⟩
  · intro name j hname
    simp only [Function.update_apply] at hname
    split at hname
    · obtain rfl := Option.some.inj hname
      exact hused
    · exact h.linked name j hname
  · intro name j hname
    simp only [Function.update_apply] at hname
    split at hname
    · rename_i heq
      obtain rfl := Option.some.inj hname
      rw [heq]
      exact hnamed
    · exact h.named name j hname

/-- A new file that nobody uses yet. -/
theorem addFile (h : Counted shm heap) {queueSizeBytes : Nat}
    (hsize : sizeofGlobalHeader ≤ queueSizeBytes) :
    Counted { shm with files := shm.files ++ [.initNewFile queueSizeBytes] } heap := by
  have hcases : ∀ {i f}, (shm.files ++ [.initNewFile queueSizeBytes])[i]? = some f →
      shm.files[i]? = some f ∨ (shm.files.length ≤ i ∧ f = .initNewFile queueSizeBytes) := by
    intro i f hf
    rcases Nat.lt_or_ge i shm.files.length with hlt | hge
    · rw [List.getElem?_append_left hlt] at hf
      exact Or.inl hf
    · rw [List.getElem?_append_right hge] at hf
      exact Or.inr ⟨hge, List.mem_singleton.mp (List.mem_of_getElem? hf)⟩
  refine ⟨h.fdOpen, ?_, ?_, ?_, ?_, h.linked, h.named⟩
  · intro slot hslot queue hq
    obtain ⟨f, hf, hsizes⟩ := h.mapped slot hslot queue hq
    exact ⟨f, by rw [List.getElem?_append_left (lt_of_getElem? hf)]; exact hf, hsizes⟩
  · intro f hf
    rcases List.mem_append.mp hf with hold | hnew
    · exact h.valid f hold
    · rw [List.mem_singleton.mp hnew]
      exact ⟨rfl, hsize⟩
  · intro i f hf
    rcases hcases hf with hold | ⟨hge, rfl⟩
    · exact h.readers i f hold
    · rw [h.countP_eq_zero hge]
      rfl
  · intro i f hf
    rcases hcases hf with hold | ⟨hge, rfl⟩
    · exact h.writers i f hold
    · rw [h.countP_eq_zero hge]
      rfl

/-- One more object, attached to a file that is there. -/
theorem register (h : Counted shm heap) (queue : IpcQueue) (b : Bool)
    (hf : shm.files[queue.file]? = some f) (hfd : queue.fdOpen = true)
    (hsize : queue.queueSizeBytes = f.queueSizeBytes)
    (havailable : queue.queueSizeBytes = queue.availableQueueSizeBytes + sizeofGlobalHeader)
    (hname : ∀ name, shm.names name = some queue.file → queue.fileName = name) :
    Counted { shm with files := shm.files.set queue.file (f.register queue.isWriter) }
      (heap ++ [some ⟨b, some queue⟩]) := by
  let archive : Archive := ⟨b, some queue⟩
  have hqueue : queueOf (some archive) = some queue := rfl
  have hslots : ∀ {slot q}, slot ∈ heap ++ [some archive] → queueOf slot = some q →
      slot ∈ heap ∨ q = queue := by
    intro slot q hslot hq
    rcases List.mem_append.mp hslot with hold | hnew
    · exact Or.inl hold
    · rw [List.mem_singleton.mp hnew, hqueue] at hq
      exact Or.inr (Option.some.inj hq).symm
  have hcount : ∀ i b, (heap ++ [some archive]).countP (attachedTo i b) =
      heap.countP (attachedTo i b) +
        if queue.isWriter = b ∧ queue.file = i then 1 else 0 := by
    intro i b
    rw [List.countP_append, List.countP_singleton, attachedTo_of hqueue]
    simp
  refine ⟨?_, ?_, ?_, ?_, ?_, ?_, ?_⟩
  · intro slot hslot q hq
    rcases hslots hslot hq with hold | rfl
    · exact h.fdOpen slot hold q hq
    · exact hfd
  · have hkept : ∀ (j : Nat) (g : ShmFile), shm.files[j]? = some g → ∃ g' : ShmFile,
        (shm.files.set queue.file (f.register queue.isWriter))[j]? = some g' ∧
          g'.queueSizeBytes = g.queueSizeBytes := by
      intro j g hg
      by_cases hj : queue.file = j
      · subst hj
        rw [hf] at hg
        obtain rfl := Option.some.inj hg
        refine ⟨_, List.getElem?_set_self (lt_of_getElem? hf), ?_⟩
        unfold ShmFile.register
        split <;> rfl
      · exact ⟨g, by rw [List.getElem?_set_ne hj]; exact hg, rfl⟩
    intro slot hslot q hq
    rcases hslots hslot hq with hold | rfl
    · obtain ⟨g, hg, hsizes, havail⟩ := h.mapped slot hold q hq
      obtain ⟨g', hg', hsame⟩ := hkept _ _ hg
      exact ⟨g', hg', hsizes.trans hsame.symm, havail⟩
    · obtain ⟨g', hg', hsame⟩ := hkept _ _ hf
      exact ⟨g', hg', hsize.trans hsame.symm, havailable⟩
  · refine forall_mem_set h.valid ?_
    have hvalid := h.valid f (List.mem_of_getElem? hf)
    unfold ShmFile.register
    split <;> exact hvalid
  · intro i g hg
    rw [hcount]
    rcases getElem?_set_cases hg with ⟨rfl, rfl⟩ | ⟨hne, hold⟩
    · have hreaders := h.readers _ f hf
      cases hw : queue.isWriter with
      | true => simpa [ShmFile.register] using hreaders
      | false =>
        rw [ShmFile.register_readers, if_pos ⟨rfl, rfl⟩]
        omega
    · have hother : ¬ (queue.isWriter = false ∧ queue.file = i) := fun hsame => hne hsame.2.symm
      rw [if_neg hother]
      exact h.readers i g hold
  · intro i g hg
    rw [hcount]
    rcases getElem?_set_cases hg with ⟨rfl, rfl⟩ | ⟨hne, hold⟩
    · have hwriters := h.writers _ f hf
      cases hw : queue.isWriter with
      | true =>
        simp only [ShmFile.register, if_true, and_self]
        omega
      | false => simpa [ShmFile.register] using hwriters
    · have hother : ¬ (queue.isWriter = true ∧ queue.file = i) := fun hsame => hne hsame.2.symm
      rw [if_neg hother]
      exact h.writers i g hold
  · intro name i hlink
    obtain ⟨slot, hslot, hused⟩ := h.linked name i hlink
    exact ⟨slot, List.mem_append_left _ hslot, hused⟩
  · intro name i hlink slot hslot q hq hfile
    rcases hslots hslot hq with hold | rfl
    · exact h.named name i hlink slot hold q hq hfile
    · exact hname name (hfile ▸ hlink)

theorem countP_release (hk : heap[k]? = some slot) (hqueue : queueOf slot = some queue) (i : Nat)
    (b : Bool) : (heap.set k none).countP (attachedTo i b) +
      (if queue.isWriter = b ∧ queue.file = i then 1 else 0) = heap.countP (attachedTo i b) := by
  have hset := countP_set (y := none) (attachedTo i b) hk
  rw [attachedTo_of hqueue] at hset
  simpa [attachedTo, queueOf] using hset

theorem readers_release (h : Counted shm heap) (hk : heap[k]? = some slot)
    (hqueue : queueOf slot = some queue) (hf : shm.files[queue.file]? = some f) :
    (f.deregister queue.isWriter).readersAndWriteOffset.toNat % 256 =
      (heap.set k none).countP (attachedTo queue.file false) % 256 := by
  have hcounted := countP_release hk hqueue queue.file false
  have hreaders := h.readers _ f hf
  cases hw : queue.isWriter with
  | true =>
    rw [if_neg (by simp [hw]), Nat.add_zero] at hcounted
    rw [hcounted]
    simpa [ShmFile.deregister] using hreaders
  | false =>
    rw [if_pos ⟨hw, rfl⟩] at hcounted
    rw [ShmFile.deregister_readers]
    omega

theorem writers_release (h : Counted shm heap) (hk : heap[k]? = some slot)
    (hqueue : queueOf slot = some queue) (hf : shm.files[queue.file]? = some f) :
    (f.deregister queue.isWriter).numWriters =
      (heap.set k none).countP (attachedTo queue.file true) % 2 ^ 32 := by
  have hcounted := countP_release hk hqueue queue.file true
  have hwriters := h.writers _ f hf
  cases hw : queue.isWriter with
  | true =>
    rw [if_pos ⟨hw, rfl⟩] at hcounted
    simp only [ShmFile.deregister, if_true]
    omega
  | false =>
    rw [if_neg (by simp [hw]), Nat.add_zero] at hcounted
    rw [hcounted]
    simpa [ShmFile.deregister] using hwriters

/-- One object less, where the names that are left do not depend on it. -/
theorem deregister (h : Counted shm heap) (hk : heap[k]? = some slot)
    (hqueue : queueOf slot = some queue) (hf : shm.files[queue.file]? = some f)
    (hstays : ∀ name, shm.names name = some queue.file →
      ∃ slot ∈ heap.set k none, ∃ q, queueOf slot = some q ∧ q.file = queue.file) :
    Counted { shm with files := shm.files.set queue.file (f.deregister queue.isWriter) }
      (heap.set k none) := by
  have hslots : ∀ {slot q}, slot ∈ heap.set k none → queueOf slot = some q → slot ∈ heap := by
    intro slot q hslot hq
    rcases List.mem_or_eq_of_mem_set hslot with hold | rfl
    · exact hold
    · cases hq
  refine ⟨?_, ?_, ?_, ?_, ?_, ?_, ?_⟩
  · intro slot hslot q hq
    exact h.fdOpen slot (hslots hslot hq) q hq
  · intro slot hslot q hq
    obtain ⟨g, hg, hsizes, havail⟩ := h.mapped slot (hslots hslot hq) q hq
    by_cases hj : queue.file = q.file
    · rw [← hj, hf] at hg
      obtain rfl := Option.some.inj hg
      refine ⟨_, by rw [← hj]; exact List.getElem?_set_self (lt_of_getElem? hf), ?_, havail⟩
      unfold ShmFile.deregister
      split <;> exact hsizes
    · exact ⟨g, by rw [List.getElem?_set_ne hj]; exact hg, hsizes, havail⟩
  · refine forall_mem_set h.valid ?_
    have hvalid := h.valid f (List.mem_of_getElem? hf)
    unfold ShmFile.deregister
    split <;> exact hvalid
  · intro i g hg
    rcases getElem?_set_cases hg with ⟨rfl, rfl⟩ | ⟨hne, hold⟩
    · exact h.readers_release hk hqueue hf
    · have hcounted := countP_release hk hqueue i false
      rw [if_neg fun hsame => hne hsame.2.symm, Nat.add_zero] at hcounted
      rw [hcounted]
      exact h.readers i g hold
  · intro i g hg
    rcases getElem?_set_cases hg with ⟨rfl, rfl⟩ | ⟨hne, hold⟩
    · exact h.writers_release hk hqueue hf
    · have hcounted := countP_release hk hqueue i true
      rw [if_neg fun hsame => hne hsame.2.symm, Nat.add_zero] at hcounted
      rw [hcounted]
      exact h.writers i g hold
  · intro name i hlink
    obtain ⟨other, hother, q, hq, hfile⟩ := h.linked name i hlink
    by_cases hsame : i = queue.file
    · subst hsame
      exact hstays name hlink
    · refine ⟨other, mem_set_of_ne hk hother ?_, q, hq, hfile⟩
      rintro rfl
      rw [hqueue] at hq
      obtain rfl := Option.some.inj hq
      exact hsame hfile.symm
  · intro name i hlink slot hslot q hq hfile
    exact h.named name i hlink slot (hslots hslot hq) q hq hfile

end Counted

/-! ### Opening and closing once -/

theorem IpcQueue.close_of_open (hfd : queue.fdOpen = true)
    (hf : shm.files[queue.file]? = some f) : queue.close shm =
      ({ queue with fdOpen := false },
        { names := if queue.unlinks f then Function.update shm.names queue.fileName none
            else shm.names
          files := shm.files.set queue.file (f.deregister queue.isWriter) }) := by
  unfold IpcQueue.close
  rw [hfd, hf]

/-- Closing again does nothing. -/
theorem IpcQueue.close_of_closed (hfd : queue.fdOpen = false) (shm : SharedMemory) :
    queue.close shm = (queue, shm) := by
  unfold IpcQueue.close
  rw [hfd]

theorem IpcQueue.close_fdOpen (hf : shm.files[queue.file]? = some f) :
    (queue.close shm).1.fdOpen = false := by
  cases hfd : queue.fdOpen with
  | true => rw [close_of_open hfd hf]
  | false => rw [close_of_closed hfd, hfd]

/-- A queue that is closed by its object and once more by a destructor has been
closed once. -/
theorem Archive.close_destroy (hqueue : archive.queue = some queue)
    (hf : shm.files[queue.file]? = some f) :
    (archive.close shm).bind (fun (archive, shm) => archive.destroy shm) =
      some (queue.close shm).2 := by
  have htwice := IpcQueue.close_of_closed (IpcQueue.close_fdOpen hf) (queue.close shm).2
  unfold Archive.close
  rw [hqueue]
  cases hkind : archive.isPublication with
  | true => simp only [Option.bind_some, Archive.destroy, htwice]
  | false => simp only [Option.bind_some, Archive.destroy, Archive.close, htwice,
      Option.map_some]

/-- **What leaving does to the counters and names.** -/
theorem Counted.close (h : Counted shm heap) (hk : heap[k]? = some slot)
    (hqueue : queueOf slot = some queue) : Counted (queue.close shm).2 (heap.set k none) := by
  have hmem := List.mem_of_getElem? hk
  have hfd := h.fdOpen slot hmem queue hqueue
  obtain ⟨f, hf, -, -⟩ := h.mapped slot hmem queue hqueue
  rw [IpcQueue.close_of_open hfd hf]
  cases hunlinks : queue.unlinks f with
  | true =>
    refine (h.unlink queue.fileName).deregister hk hqueue hf ?_
    intro name hname
    obtain ⟨hne, hlinked⟩ := linked_of_unlinked hname
    exact absurd (h.named name _ hlinked slot hmem queue hqueue rfl).symm hne
  | false =>
    refine h.deregister hk hqueue hf fun name hname => ?_
    rw [IpcQueue.unlinks, Bool.and_eq_false_iff, decide_eq_false_iff_not, Bool.or_eq_false_iff,
      decide_eq_false_iff_not, Bool.not_eq_false'] at hunlinks
    rcases hunlinks with hwriter | ⟨hpublication, hreader⟩
    · -- another writer is still there
      have hne : (heap.set k none).countP (attachedTo queue.file true) ≠ 0 := by
        intro hzero
        rw [h.writers_release hk hqueue hf, hzero] at hwriter
        exact hwriter rfl
      obtain ⟨other, hother, q, hq, -, hfile⟩ := exists_attached hne
      exact ⟨other, hother, q, hq, hfile⟩
    · -- a reader is
      have hne : heap.countP (attachedTo queue.file false) ≠ 0 := by
        intro hzero
        have hreaders := h.readers _ f hf
        rw [hzero] at hreaders
        exact hreader (UInt64.toNat_inj.mp ((unwrap_numReaders_toNat _).trans hreaders))
      obtain ⟨other, hother, q, hq, hkind, hfile⟩ := exists_attached hne
      refine ⟨other, mem_set_of_ne hk hother ?_, q, hq, hfile⟩
      rintro rfl
      rw [hqueue] at hq
      obtain rfl := Option.some.inj hq
      rw [hpublication] at hkind
      cases hkind

/-- **What opening does to the counters and names.** -/
theorem Counted.construct (h : Counted shm heap) (params : IpcQueueParameters)
    (fileName : String) (b : Bool) : ∃ queue shm',
      IpcQueue.construct shm params fileName = some (queue, shm') ∧
      Counted shm' (heap ++ [some ⟨b, some queue⟩]) ∧ queue.isWriter = params.isWriter ∧
        queue.fileName = fileName := by
  unfold IpcQueue.construct
  cases hname : shm.names fileName with
  | none =>
    refine ⟨_, _, rfl, ?_, rfl, rfl⟩
    let queueSizeBytes := params.queueSize + sizeofGlobalHeader
    let queue : IpcQueue := ⟨params.isWriter, fileName, shm.files.length, queueSizeBytes,
      params.queueSize, true⟩
    have hfile : (shm.files ++ [ShmFile.initNewFile queueSizeBytes])[queue.file]? =
        some (.initNewFile queueSizeBytes) := by
      rw [List.getElem?_append_right (Nat.le_refl _), Nat.sub_self]
      rfl
    have hfresh : ∀ name, shm.names name = some queue.file → queue.fileName = name :=
      fun name hlink => absurd (h.lt_of_linked hlink) (Nat.lt_irrefl _)
    have hadded := (h.addFile (Nat.le_add_left _ _)).register queue b hfile rfl rfl rfl hfresh
    have hset : (shm.files ++ [ShmFile.initNewFile queueSizeBytes]).set shm.files.length
        ((ShmFile.initNewFile queueSizeBytes).register params.isWriter) =
        shm.files ++ [(ShmFile.initNewFile queueSizeBytes).register params.isWriter] := by
      rw [List.set_append_right _ _ (Nat.le_refl _), Nat.sub_self]
      rfl
    rw [← hset]
    refine hadded.link fileName ⟨_, List.mem_append_right _ List.mem_cons_self, queue, rfl, rfl⟩ ?_
    intro slot hslot q hq hsame
    rcases List.mem_append.mp hslot with hold | hnew
    · obtain ⟨f, hf, -, -⟩ := h.mapped slot hold q hq
      have hlt := lt_of_getElem? hf
      omega
    · rw [List.mem_singleton.mp hnew] at hq
      rw [← Option.some.inj hq]
  | some file =>
    have hlt := h.lt_of_linked hname
    have hf : shm.files[file]? = some shm.files[file] := List.getElem?_eq_getElem hlt
    obtain ⟨hmagic, hsize⟩ := h.valid _ (List.mem_of_getElem? hf)
    simp only [hf, Option.bind_some, hmagic, ne_eq, not_true_eq_false, if_false]
    refine ⟨_, _, rfl, ?_, rfl, rfl⟩
    refine h.register ⟨params.isWriter, fileName, file, _, _, true⟩ b hf rfl ?_ ?_ ?_
    · split
      · rfl
      · rename_i hsame
        exact (not_not.mp hsame).symm
    · split
      · exact (Nat.sub_add_cancel hsize).symm
      · rfl
    · intro name hlink
      obtain ⟨slot, hslot, q, hq, hfile⟩ := h.linked name file hlink
      have hopened := h.named fileName file hname slot hslot q hq hfile
      exact hopened.symm.trans (h.named name file hlink slot hslot q hq hfile)

/-- A claim leaves the readers of the packed word alone. -/
theorem Counted.claim (h : Counted shm heap) (hf : shm.files[file]? = some f) (bytes : UInt64) :
    Counted { shm with files := shm.files.set file (f.claim bytes) } heap := by
  refine ⟨h.fdOpen, ?_, ?_, ?_, ?_, h.linked, h.named⟩
  · intro slot hslot queue hq
    obtain ⟨g, hg, hsizes, havail⟩ := h.mapped slot hslot queue hq
    by_cases hj : file = queue.file
    · rw [← hj, hf] at hg
      obtain rfl := Option.some.inj hg
      exact ⟨f.claim bytes, by rw [← hj]; exact List.getElem?_set_self (lt_of_getElem? hf), hsizes,
        havail⟩
    · exact ⟨g, by rw [List.getElem?_set_ne hj]; exact hg, hsizes, havail⟩
  · exact forall_mem_set h.valid (h.valid f (List.mem_of_getElem? hf))
  · intro i g hg
    rcases getElem?_set_cases hg with ⟨rfl, rfl⟩ | ⟨-, hold⟩
    · exact (returnAddOffset_mod _ _).trans (h.readers _ f hf)
    · exact h.readers i g hold
  · intro i g hg
    rcases getElem?_set_cases hg with ⟨rfl, rfl⟩ | ⟨-, hold⟩
    · exact h.writers _ f hf
    · exact h.writers i g hold

end

/-! ### Calls from Python -/

section

variable {w w' : World} {i k handle : Nat} {e : Endpoint} {c : Call} {params : IpcQueueParameters}
  {fileName : String}

theorem World.Accounts.init : World.init.Accounts where
  owned := .nil
  serves i e hi := by simp [World.init] at hi
  counted := {
    fdOpen := fun _ hslot => by cases hslot
    mapped := fun _ hslot => by cases hslot
    valid := fun _ hf => by cases hf
    readers := fun i f hf => by simp [World.init] at hf
    writers := fun i f hf => by simp [World.init] at hf
    linked := fun _ _ hname => by cases hname
    named := fun _ _ hname => by cases hname }

namespace World

theorem handle_at (hi : w.endpoints[i]? = some e) (hhandle : e.handle = some handle) :
    (w.endpoints.map Endpoint.handle)[i]? = some (some handle) := by
  rw [List.getElem?_map, hi, Option.map_some, hhandle]

/-- An open endpoint's object, its queue and its file. -/
theorem Accounts.opened (h : w.Accounts) (hi : w.endpoints[i]? = some e)
    (hhandle : e.handle = some handle) : ∃ queue f,
      w.heap[handle]? = some (some ⟨e.isPublication, some queue⟩) ∧ queue.Serves e ∧
        w.shm.files[queue.file]? = some f := by
  obtain ⟨queue, hslot, hserves⟩ := h.serves i e hi handle hhandle
  obtain ⟨f, hf, -, -⟩ := h.counted.mapped _ (List.mem_of_getElem? hslot) queue rfl
  exact ⟨queue, f, hslot, hserves, hf⟩

/-- What closing an open endpoint does. -/
theorem Accounts.close_eq (h : w.Accounts) (hi : w.endpoints[i]? = some e)
    (hhandle : e.handle = some handle) : ∃ queue,
      w.heap[handle]? = some (some ⟨e.isPublication, some queue⟩) ∧ queue.Serves e ∧
        w.close i = some { w with
          shm := (queue.close w.shm).2
          heap := w.heap.set handle none
          endpoints := w.endpoints.set i { e with handle := none } } := by
  obtain ⟨queue, f, hslot, hserves, hf⟩ := h.opened hi hhandle
  refine ⟨queue, hslot, hserves, ?_⟩
  have htwice : ((⟨e.isPublication, some queue⟩ : Archive).close w.shm).bind
      (fun (archive, shm) => archive.destroy shm) = some (queue.close w.shm).2 :=
    Archive.close_destroy rfl hf
  have hnative : w.native handle = some ⟨e.isPublication, some queue⟩ := by
    rw [native, hslot]
    rfl
  obtain ⟨⟨archive, shm⟩, hclosed, hdestroyed⟩ := Option.bind_eq_some_iff.mp htwice
  change archive.destroy shm = _ at hdestroyed
  rw [close, hi, Option.bind_some, hhandle]
  simp only [hnative, Option.bind_some, hclosed]
  rw [hdestroyed, Option.map_some]

/-- Closing never fails and leaves the endpoint without a handle. -/
theorem Accounts.close (h : w.Accounts) (hi : w.endpoints[i]? = some e) : ∃ w',
    w.close i = some w' ∧ w'.Accounts ∧
      w'.endpoints = w.endpoints.set i { e with handle := none } := by
  cases hhandle : e.handle with
  | none =>
    refine ⟨w, by rw [World.close, hi, Option.bind_some, hhandle], h, ?_⟩
    have hsame : { e with handle := none } = e := by rw [← hhandle]
    rw [hsame]
    obtain ⟨hlt, he⟩ := List.getElem?_eq_some_iff.mp hi
    rw [← he, List.set_getElem_self]
  | some handle =>
    obtain ⟨queue, hslot, -, hclose⟩ := h.close_eq hi hhandle
    have howner := handle_at hi hhandle
    refine ⟨_, hclose, ⟨?_, ?_, h.counted.close hslot rfl⟩, rfl⟩
    · rw [List.map_set]
      exact h.owned.release howner
    · intro j e' hj handle' hhandle'
      rcases getElem?_set_cases hj with ⟨-, rfl⟩ | ⟨hne, hold⟩
      · cases hhandle'
      · obtain ⟨q, hq, hserves⟩ := h.serves j e' hold handle' hhandle'
        have hother := h.owned.ne howner (handle_at hold hhandle') (Ne.symm hne)
        exact ⟨q, by rw [List.getElem?_set_ne hother]; exact hq, hserves⟩

theorem Accounts.archiveCreate (h : w.Accounts) (hi : w.endpoints[i]? = some e)
    (hnone : e.handle = none) (params : IpcQueueParameters) : ∃ w',
      w.archiveCreate i e params = some w' ∧ w'.Accounts := by
  obtain ⟨queue, shm, hconstruct, hcounted, hkind, hname⟩ :=
    h.counted.construct { params with isWriter := e.isPublication } e.fileName e.isPublication
  refine ⟨_, by rw [World.archiveCreate, hconstruct, Option.map_some], ?_, ?_, hcounted⟩
  · rw [List.map_set]
    exact h.owned.acquire (by rw [List.getElem?_map, hi, Option.map_some, hnone]) _
  · intro j e' hj handle' hhandle'
    rcases getElem?_set_cases hj with ⟨-, rfl⟩ | ⟨-, hold⟩
    · obtain rfl := Option.some.inj hhandle'
      exact ⟨queue, by rw [List.getElem?_append_right (Nat.le_refl _), Nat.sub_self]; rfl,
        hkind, hname⟩
    · obtain ⟨q, hq, hserves⟩ := h.serves j e' hold handle' hhandle'
      exact ⟨q, by rw [List.getElem?_append_left (lt_of_getElem? hq)]; exact hq, hserves⟩

theorem Accounts.open (h : w.Accounts) (hi : i < w.endpoints.length)
    (params : IpcQueueParameters) : ∃ w', w.open i params = some w' ∧ w'.Accounts := by
  have he : w.endpoints[i]? = some w.endpoints[i] := List.getElem?_eq_getElem hi
  obtain ⟨closed, hclose, hclosed, hendpoints⟩ := h.close he
  have hreset : closed.endpoints[i]? = some { w.endpoints[i] with handle := none } := by
    rw [hendpoints, List.getElem?_set_self hi]
  obtain ⟨w', hcreate, hw'⟩ := hclosed.archiveCreate hreset rfl params
  exact ⟨w', by rw [World.open, hclose, Option.bind_some, hreset, Option.bind_some, hcreate], hw'⟩

/-- Python objects that hold nothing yet. -/
theorem Accounts.addEndpoints (h : w.Accounts) (added : List Endpoint)
    (hadded : ∀ e ∈ added, e.handle = none) :
    World.Accounts { w with endpoints := w.endpoints ++ added } := by
  refine ⟨?_, ?_, h.counted⟩
  · have hnone : added.map Endpoint.handle = List.replicate added.length none :=
      List.map_eq_replicate_iff.mpr hadded
    rw [List.map_append, hnone]
    exact h.owned.addOwners _
  · intro j e hj handle hhandle
    rcases Nat.lt_or_ge j w.endpoints.length with hlt | hge
    · rw [List.getElem?_append_left hlt] at hj
      exact h.serves j e hj handle hhandle
    · rw [List.getElem?_append_right hge] at hj
      rw [hadded e (List.mem_of_getElem? hj)] at hhandle
      cases hhandle

theorem Accounts.construct (h : w.Accounts) (params : IpcQueueParameters) (fileName : String) :
    ∃ w', w.construct params fileName = some w' ∧ w'.Accounts := by
  have hadded := h.addEndpoints [⟨params.isWriter, fileName, none⟩] (by simp)
  exact hadded.open (by simp) params

/-- What a call that returns has done. -/
inductive Stepped (w : World) : Call → World → Prop where
  | constructed {params : IpcQueueParameters} {fileName : String} {w' : World}
      (h : w.construct params fileName = some w') : Stepped w (.construct params fileName) w'
  | opened {i : Nat} {params : IpcQueueParameters} {w' : World}
      (h : w.open i params = some w') : Stepped w (.open i params) w'
  | closed {i : Nat} {w' : World} (h : w.close i = some w') : Stepped w (.close i) w'
  | claimed {c : Call} (buffers : List (Option Nat)) : Stepped w c { w with buffers := buffers }
  | entered {c : Call} {file : Nat} {f : ShmFile} (hf : w.shm.files[file]? = some f)
      (bytes : UInt64) :
      Stepped w c { w with shm := { w.shm with files := w.shm.files.set file (f.claim bytes) } }
  | unlinked {c : Call} (fileName : String) : Stepped w c (w.archiveForceClose fileName)

theorem Stepped.none (w : World) (c : Call) : w.Stepped c w := .claimed w.buffers

theorem Stepped.of_call (hcall : w.call c = some w') : w.Stepped c w' := by
  cases c with
  | construct params fileName => exact .constructed hcall
  | «open» i params => exact .opened hcall
  | close i => exact .closed hcall
  | pollSubscription i =>
    obtain ⟨e, -, hpoll⟩ := Option.bind_eq_some_iff.mp hcall
    split at hpoll
    · exact Option.some.inj hpoll ▸ .none w _
    · obtain ⟨-, -, rfl⟩ := Option.map_eq_some_iff.mp hpoll
      exact .none w _
  | publicationClaim i =>
    obtain ⟨e, -, rfl⟩ := Option.map_eq_some_iff.mp hcall
    exact .claimed _
  | publicationCommit i =>
    obtain ⟨e, -, hcommit⟩ := Option.bind_eq_some_iff.mp hcall
    obtain ⟨-, -, rfl⟩ := Option.map_eq_some_iff.mp hcommit
    exact .none w _
  | enter k bytes =>
    obtain ⟨archive, -, henter⟩ := Option.bind_eq_some_iff.mp hcall
    obtain ⟨queue, -, henter⟩ := Option.bind_eq_some_iff.mp henter
    obtain ⟨f, hf, rfl⟩ := Option.map_eq_some_iff.mp henter
    exact .entered hf bytes
  | exit k =>
    obtain ⟨e, -, hcommit⟩ := Option.bind_eq_some_iff.mp hcall
    obtain ⟨-, -, rfl⟩ := Option.map_eq_some_iff.mp hcommit
    exact .none w _
  | archiveForceClose fileName =>
    obtain rfl := Option.some.inj hcall
    exact .unlinked fileName

/-- Whatever call is made, the objects and the counters stay in step. -/
theorem Accounts.call (h : w.Accounts) (hcall : w.call c = some w') : w'.Accounts := by
  cases Stepped.of_call hcall with
  | @constructed params fileName _ hconstruct =>
    obtain ⟨w'', hconstructed, haccounts⟩ := h.construct params fileName
    rw [hconstructed] at hconstruct
    exact Option.some.inj hconstruct ▸ haccounts
  | @opened i params _ hopen =>
    have hlt : i < w.endpoints.length := by
      by_contra hge
      rw [World.open, World.close, List.getElem?_eq_none (by simpa using hge)] at hopen
      cases hopen
    obtain ⟨w'', hopened, haccounts⟩ := h.open hlt params
    rw [hopened] at hopen
    exact Option.some.inj hopen ▸ haccounts
  | closed hclose =>
    obtain ⟨e, hi, -⟩ := Option.bind_eq_some_iff.mp hclose
    obtain ⟨w'', hclosed, haccounts, -⟩ := h.close hi
    rw [hclosed] at hclose
    exact Option.some.inj hclose ▸ haccounts
  | claimed buffers => exact ⟨h.owned, h.serves, h.counted⟩
  | entered hf bytes => exact ⟨h.owned, h.serves, h.counted.claim hf bytes⟩
  | unlinked fileName => exact ⟨h.owned, h.serves, h.counted.unlink fileName⟩

/-- A pointer leads to an object as long as an endpoint holds it. -/
theorem Accounts.native_isSome_iff (h : w.Accounts) (handle : Nat) :
    (w.native handle).isSome = true ↔ ∃ e ∈ w.endpoints, e.handle = some handle := by
  constructor
  · intro hlive
    obtain ⟨archive, harchive⟩ := Option.isSome_iff_exists.mp hlive
    obtain ⟨i, hi⟩ := h.owned.covered handle archive (Option.join_eq_some_iff.mp harchive)
    rw [List.getElem?_map] at hi
    obtain ⟨e, he, hhandle⟩ := Option.map_eq_some_iff.mp hi
    exact ⟨e, List.mem_of_getElem? he, hhandle⟩
  · rintro ⟨e, he, hhandle⟩
    obtain ⟨i, hi⟩ := List.mem_iff_getElem?.mp he
    obtain ⟨queue, hslot, -⟩ := h.serves i e hi handle hhandle
    rw [native, hslot]
    rfl

end World

/-- The call is for a Python object there is, and one of the right class. -/
def Call.Possible (w : World) : Call → Prop
  | .construct _ _ | .archiveForceClose _ => True
  | .open i _ | .close i => i < w.endpoints.length
  | .pollSubscription i => ∃ e, w.endpoints[i]? = some e ∧ e.isPublication = false
  | .publicationClaim i | .publicationCommit i =>
    ∃ e, w.endpoints[i]? = some e ∧ e.isPublication = true
  | .enter k _ | .exit k => k < w.buffers.length

instance (w : World) (c : Call) : Decidable (c.Possible w) := by
  apply Call.casesOn (motive := fun c => Decidable (c.Possible w)) c
  · exact fun _ _ => inferInstanceAs (Decidable True)
  · exact fun i _ => inferInstanceAs (Decidable (i < w.endpoints.length))
  · exact fun i => inferInstanceAs (Decidable (i < w.endpoints.length))
  · exact fun i => inferInstanceAs (Decidable (∃ e, w.endpoints[i]? = some e ∧ _))
  · exact fun i => inferInstanceAs (Decidable (∃ e, w.endpoints[i]? = some e ∧ _))
  · exact fun i => inferInstanceAs (Decidable (∃ e, w.endpoints[i]? = some e ∧ _))
  · exact fun k _ => inferInstanceAs (Decidable (k < w.buffers.length))
  · exact fun k => inferInstanceAs (Decidable (k < w.buffers.length))
  · exact fun _ => inferInstanceAs (Decidable True)

/-- A commit is for an open publication; a claimed buffer is used while an
endpoint still holds the pointer it was made with. -/
def Call.Live (w : World) : Call → Prop
  | .publicationCommit i => ∃ e, w.endpoints[i]? = some e ∧ e.handle.isSome = true
  | .enter k _ | .exit k => ∃ handle, w.buffers[k]? = some (some handle) ∧
      ∃ e ∈ w.endpoints, e.handle = some handle
  | _ => True

namespace World

theorem archivePubCommit_isSome (o : Option Nat) :
    (w.archivePubCommit o).isSome = (o.bind w.native).isSome := by
  rw [archivePubCommit, Option.isSome_map]

/-- An object there is has a queue, and this has a file. -/
theorem Accounts.enter_isSome (h : w.Accounts) (k : Nat) (bytes : UInt64) :
    (w.enter k bytes).isSome = (w.buffers[k]?.join.bind w.native).isSome := by
  cases hnative : w.buffers[k]?.join.bind w.native with
  | none => simp [World.enter, hnative]
  | some archive =>
    obtain ⟨handle, -, hobject⟩ := Option.bind_eq_some_iff.mp hnative
    have hslot := Option.join_eq_some_iff.mp hobject
    obtain ⟨i, hi⟩ := h.owned.covered handle archive hslot
    rw [List.getElem?_map] at hi
    obtain ⟨e, he, hhandle⟩ := Option.map_eq_some_iff.mp hi
    obtain ⟨queue, f, hopened, -, hf⟩ := h.opened he hhandle
    rw [hslot] at hopened
    obtain rfl := Option.some.inj (Option.some.inj hopened)
    simp [World.enter, hnative, hf]

theorem Accounts.buffer_isSome_iff (h : w.Accounts) (k : Nat) :
    (w.buffers[k]?.join.bind w.native).isSome = true ↔
      ∃ handle, w.buffers[k]? = some (some handle) ∧ ∃ e ∈ w.endpoints, e.handle = some handle := by
  constructor
  · intro hlive
    obtain ⟨archive, hnative⟩ := Option.isSome_iff_exists.mp hlive
    obtain ⟨handle, hbuffer, hobject⟩ := Option.bind_eq_some_iff.mp hnative
    exact ⟨handle, Option.join_eq_some_iff.mp hbuffer,
      (h.native_isSome_iff handle).mp (by rw [hobject]; rfl)⟩
  · rintro ⟨handle, hbuffer, hheld⟩
    rw [hbuffer]
    exact (h.native_isSome_iff handle).mpr hheld

/-- Which calls follow a pointer to no object. -/
theorem Accounts.call_isSome_iff (h : w.Accounts) (hpossible : c.Possible w) :
    (w.call c).isSome = true ↔ c.Live w := by
  cases c with
  | construct params fileName =>
    obtain ⟨made, hmade, -⟩ := h.construct params fileName
    simp [World.call, hmade, Call.Live]
  | «open» i params =>
    obtain ⟨opened, hopened, -⟩ := h.open hpossible params
    simp [World.call, hopened, Call.Live]
  | close i =>
    obtain ⟨closed, hclosed, -⟩ := h.close (List.getElem?_eq_getElem hpossible)
    simp [World.call, hclosed, Call.Live]
  | pollSubscription i =>
    obtain ⟨e, hi, -⟩ := hpossible
    rw [World.call, World.pollSubscription, hi, Option.bind_some]
    cases hhandle : e.handle with
    | none => simp [Call.Live]
    | some handle =>
      rw [Option.isSome_map, h.native_isSome_iff]
      exact ⟨fun _ => trivial, fun _ => ⟨e, List.mem_of_getElem? hi, hhandle⟩⟩
  | publicationClaim i =>
    obtain ⟨e, hi, -⟩ := hpossible
    simp [World.call, publicationClaim, hi, Call.Live]
  | publicationCommit i =>
    obtain ⟨e, hi, -⟩ := hpossible
    rw [World.call, World.publicationCommit, hi, Option.bind_some, archivePubCommit_isSome,
      Call.Live]
    cases hhandle : e.handle with
    | none =>
      refine ⟨fun hnull => absurd hnull (by simp), ?_⟩
      rintro ⟨e', he', hopen⟩
      obtain rfl := Option.some.inj (hi.symm.trans he')
      rw [hhandle] at hopen
      cases hopen
    | some handle =>
      rw [Option.bind_some, h.native_isSome_iff]
      exact ⟨fun _ => ⟨e, hi, by rw [hhandle]; rfl⟩, fun _ => ⟨e, List.mem_of_getElem? hi, hhandle⟩⟩
  | enter k bytes =>
    rw [World.call, h.enter_isSome, h.buffer_isSome_iff, Call.Live]
  | exit k =>
    have hbuffer : w.buffers[k]? = some w.buffers[k] := List.getElem?_eq_getElem hpossible
    rw [World.call, World.exit, hbuffer, Option.bind_some, archivePubCommit_isSome, Call.Live,
      ← h.buffer_isSome_iff, hbuffer]
    rfl
  | archiveForceClose fileName => simp [World.call, Call.Live]

/-- Whose object it is. -/
theorem Accounts.holder {slot : Option Archive} {queue : IpcQueue} (h : w.Accounts)
    (hslot : slot ∈ w.heap) (hqueue : queueOf slot = some queue) : ∃ e ∈ w.endpoints,
      queue.Serves e ∧ queueOf (e.handle.bind w.native) = some queue := by
  obtain ⟨archive, rfl, hqueue'⟩ := Option.bind_eq_some_iff.mp hqueue
  obtain ⟨handle, hat⟩ := List.mem_iff_getElem?.mp hslot
  obtain ⟨i, hi⟩ := h.owned.covered handle archive hat
  rw [List.getElem?_map] at hi
  obtain ⟨e, he, hhandle⟩ := Option.map_eq_some_iff.mp hi
  obtain ⟨queue', hopened, hserves⟩ := h.serves i e he handle hhandle
  rw [hat] at hopened
  obtain rfl := Option.some.inj (Option.some.inj hopened)
  obtain rfl := Option.some.inj hqueue'
  refine ⟨e, List.mem_of_getElem? he, hserves, ?_⟩
  rw [hhandle, Option.bind_some, native, hat]
  rfl

theorem Accounts.linked {name : String} {file : Nat} (h : w.Accounts)
    (hname : w.shm.names name = some file) : ∃ e ∈ w.endpoints, e.fileName = name ∧
      ∃ queue, queueOf (e.handle.bind w.native) = some queue ∧ queue.file = file := by
  obtain ⟨slot, hslot, queue, hqueue, hfile⟩ := h.counted.linked name file hname
  obtain ⟨e, he, hserves, hopened⟩ := h.holder hslot hqueue
  have hopenedName := h.counted.named name file hname slot hslot queue hqueue hfile
  exact ⟨e, he, hserves.fileName.symm.trans hopenedName, queue, hopened, hfile⟩

theorem Accounts.of_run (hrun : Reach World.call (fun w c => c.Possible w) World.init w) :
    w.Accounts :=
  hrun.invariant World.Accounts.init fun _ _ _ h _ hcall => h.call hcall

theorem slot_of_queueOf {queue : IpcQueue}
    (hqueue : queueOf (e.handle.bind w.native) = some queue) : e.handle.bind w.native ∈ w.heap := by
  obtain ⟨archive, harchive, -⟩ := Option.bind_eq_some_iff.mp hqueue
  obtain ⟨handle, -, hnative⟩ := Option.bind_eq_some_iff.mp harchive
  rw [harchive]
  exact List.mem_of_getElem? (Option.join_eq_some_iff.mp hnative)

/-- The endpoints of one kind that are open on a file. -/
def attached (w : World) (file : Nat) (isWriter : Bool) : Nat :=
  w.endpoints.countP fun e => attachedTo file isWriter (e.handle.bind w.native)

theorem Accounts.attached_eq (h : w.Accounts) (file : Nat) (isWriter : Bool) :
    w.heap.countP (attachedTo file isWriter) = w.attached file isWriter := by
  rw [h.owned.countP_eq _ rfl, List.countP_map]
  rfl

end World

end

/-- **The counters and the objects agree.** After any calls from Python every
file counts the publications and the subscriptions open on it, in the width of
the counter; a name leads to a file that some endpoint has open under that name;
every endpoint works with the size its file was made with. Undefined behaviour is
left to commits of a closed publication and to buffers whose publication was
closed or opened again. Once everything is closed, no name and no C++ object is
left. -/
theorem handles_account {w : World}
    (hreach : Reach World.call (fun w c => c.Possible w) World.init w) :
    (∀ (file : Nat) (f : ShmFile), w.shm.files[file]? = some f →
      (unwrap f.readersAndWriteOffset).numReaders.toNat = w.attached file false % 256 ∧
        f.numWriters = w.attached file true % 2 ^ 32) ∧
    (∀ name file, w.shm.names name = some file → ∃ e ∈ w.endpoints, e.fileName = name ∧
      ∃ queue, queueOf (e.handle.bind w.native) = some queue ∧ queue.file = file) ∧
    (∀ e ∈ w.endpoints, ∀ queue, queueOf (e.handle.bind w.native) = some queue → ∃ f,
      w.shm.files[queue.file]? = some f ∧ queue.queueSizeBytes = f.queueSizeBytes ∧
        queue.queueSizeBytes = queue.availableQueueSizeBytes + sizeofGlobalHeader) ∧
    (∀ c : Call, c.Possible w → ((w.call c).isSome = true ↔ c.Live w)) ∧
    ((∀ e ∈ w.endpoints, e.handle = none) →
      (∀ name, w.shm.names name = none) ∧ ∀ slot ∈ w.heap, slot = none) := by
  have h := World.Accounts.of_run hreach
  refine ⟨?_, fun _ _ => h.linked, ?_, fun c hc => h.call_isSome_iff hc, ?_⟩
  · intro file f hf
    have hreaders := h.counted.readers file f hf
    have hwriters := h.counted.writers file f hf
    rw [h.attached_eq] at hreaders hwriters
    exact ⟨by rw [unwrap_numReaders_toNat, hreaders], hwriters⟩
  · intro e he queue hqueue
    exact h.counted.mapped _ (World.slot_of_queueOf hqueue) queue hqueue
  · intro hclosed
    refine ⟨fun name => ?_, h.owned.all_freed ?_⟩
    · by_contra hlinked
      obtain ⟨file, hname⟩ := Option.ne_none_iff_exists'.mp hlinked
      obtain ⟨e, he, -, queue, hopened, -⟩ := h.linked hname
      rw [hclosed e he] at hopened
      cases hopened
    · intro o ho
      obtain ⟨e, he, rfl⟩ := List.mem_map.mp ho
      exact hclosed e he

/-- A publication and two subscriptions of one name. The publication and one of
the subscriptions are closed, which leaves the other with a file that has no
name, and a new publication makes a new file. -/
def twoFiles : List Call :=
  let reader64 := { writer64 with isWriter := false }
  [.construct writer64 "/q", .construct reader64 "/q", .publicationClaim 0, .enter 0 82,
    .exit 0, .construct reader64 "/q", .close 0, .close 1, .construct writer64 "/q"]

/-- The counters of both files, and a buffer whose publication is gone. -/
theorem handles_account_two_files : ∃ w : World, w.shm.names "/q" = some 1 ∧
    w.shm.files.map ShmFile.numWriters = [0, 1] ∧ w.attached 1 true = 1 ∧
    (∀ f, w.shm.files[0]? = some f →
      (unwrap f.readersAndWriteOffset).numReaders.toNat = 1) ∧
    (w.call (.exit 0)).isSome = false := by
  have hexec : (exec World.call (fun w c => c.Possible w) World.init twoFiles).any (fun w =>
      decide (w.shm.names "/q" = some 1 ∧ w.shm.files.map ShmFile.numWriters = [0, 1] ∧
        w.attached 1 true = 1 ∧ w.attached 0 false = 1 ∧ w.buffers = [some 0] ∧
        w.endpoints.map Endpoint.handle = [none, none, some 2, some 3])) = true := by
    decide +kernel
  obtain ⟨w, hrun, hw⟩ := exists_run_of_exec hexec
  obtain ⟨hname, hwriters, hpublication, hsubscription, hbuffers, hhandles⟩ := of_decide_eq_true hw
  obtain ⟨hcounters, -, -, hlive, -⟩ := handles_account ⟨_, hrun⟩
  refine ⟨w, hname, hwriters, hpublication, fun f hf => ?_, ?_⟩
  · rw [(hcounters 0 f hf).1, hsubscription]
  · have hpossible : (Call.exit 0).Possible w := by
      change 0 < w.buffers.length
      rw [hbuffers]
      decide
    rw [← Bool.not_eq_true, hlive _ hpossible]
    rintro ⟨handle, hbuffer, e, he, hhandle⟩
    rw [hbuffers] at hbuffer
    have hmem : e.handle ∈ w.endpoints.map Endpoint.handle := List.mem_map.mpr ⟨e, he, rfl⟩
    rw [hhandles, hhandle, ← Option.some.inj hbuffer] at hmem
    revert hmem
    decide

end MockExchange
