import MockExchange.HandleAccounts

/-!
# Files without a name

`IpcQueue::close` unlinks the name it was opened under, and does so while others
may still be attached. The file behind the name then lives on for those who have
it mapped, and the next agent that opens the name makes another one. What is
proved is when exactly a name is taken away, and that a file without a name is
out of reach for good: who publishes under the name later is never heard by the
subscriptions that stayed.
-/

namespace MockExchange

open Transition ListUpdate UnpackedReadersAndWriterOffset

/-- `w'` is later than `w`: names are given to new files only, and new objects
attach to files that had a name or were not there. -/
structure World.Later (w w' : World) : Prop where
  files : w.shm.files.length ≤ w'.shm.files.length
  names : ∀ name file, w'.shm.names name = some file →
    w.shm.names name = some file ∨ w.shm.files.length ≤ file
  heap : ∀ (k : Nat) (slot : Option Archive) (queue : IpcQueue), w'.heap[k]? = some slot →
    queueOf slot = some queue → w.heap[k]? = some slot ∨
      (∃ name, w.shm.names name = some queue.file) ∨ w.shm.files.length ≤ queue.file

section

variable {w w' w'' : World} {shm shm' : SharedMemory} {queue : IpcQueue}
  {archive archive' : Archive} {params : IpcQueueParameters} {fileName : String}
  {i k handle : Nat} {e : Endpoint} {c : Call}

theorem World.Later.refl (w : World) : w.Later w :=
  ⟨Nat.le_refl _, fun _ _ hname => Or.inl hname, fun _ _ _ hk _ => Or.inl hk⟩

theorem World.Later.trans (h : w.Later w') (h' : w'.Later w'') : w.Later w'' := by
  have hnames : ∀ name file, w''.shm.names name = some file →
      w.shm.names name = some file ∨ w.shm.files.length ≤ file := by
    intro name file hname
    rcases h'.names name file hname with hold | hnew
    · exact h.names name file hold
    · exact Or.inr (h.files.trans hnew)
  refine ⟨h.files.trans h'.files, hnames, ?_⟩
  intro k slot queue hk hqueue
  rcases h'.heap k slot queue hk hqueue with hold | ⟨name, hname⟩ | hnew
  · exact h.heap k slot queue hold hqueue
  · rcases h.names name queue.file hname with hold | hnew
    · exact Or.inr (Or.inl ⟨name, hold⟩)
    · exact Or.inr (Or.inr hnew)
  · exact Or.inr (Or.inr (h.files.trans hnew))

/-- `shm'` is `shm` without some of its names. -/
structure SharedMemory.Fewer (shm shm' : SharedMemory) : Prop where
  files : shm'.files.length = shm.files.length
  names : ∀ name file, shm'.names name = some file → shm.names name = some file

theorem SharedMemory.Fewer.trans {shm'' : SharedMemory} (h : shm.Fewer shm')
    (h' : shm'.Fewer shm'') : shm.Fewer shm'' :=
  ⟨h'.files.trans h.files, fun name file hname => h.names name file (h'.names name file hname)⟩

theorem IpcQueue.close_fewer (queue : IpcQueue) (shm : SharedMemory) :
    shm.Fewer (queue.close shm).2 := by
  unfold IpcQueue.close
  split
  · refine ⟨List.length_set .., fun name file hname => ?_⟩
    simp only at hname
    split at hname
    · exact (linked_of_unlinked hname).2
    · exact hname
  · exact ⟨rfl, fun _ _ hname => hname⟩

theorem Archive.close_fewer (h : archive.close shm = some (archive', shm')) : shm.Fewer shm' := by
  unfold Archive.close at h
  split at h
  · obtain ⟨-, rfl⟩ := Prod.mk.inj (Option.some.inj h)
    exact IpcQueue.close_fewer _ _
  · cases h
  · obtain ⟨-, rfl⟩ := Prod.mk.inj (Option.some.inj h)
    exact (IpcQueue.close_fewer _ _).trans (IpcQueue.close_fewer _ _)
  · obtain ⟨-, rfl⟩ := Prod.mk.inj (Option.some.inj h)
    exact ⟨rfl, fun _ _ hname => hname⟩

theorem Archive.destroy_fewer (h : archive.destroy shm = some shm') : shm.Fewer shm' := by
  unfold Archive.destroy at h
  split at h
  · obtain rfl := Option.some.inj h
    exact IpcQueue.close_fewer _ _
  · obtain rfl := Option.some.inj h
    exact ⟨rfl, fun _ _ hname => hname⟩
  · obtain ⟨⟨archive', shm''⟩, hclose, rfl⟩ := Option.map_eq_some_iff.mp h
    exact Archive.close_fewer hclose

theorem World.close_later (h : w.close i = some w') : w.Later w' := by
  obtain ⟨e, -, h⟩ := Option.bind_eq_some_iff.mp h
  split at h
  · exact Option.some.inj h ▸ .refl w
  · rename_i handle _
    obtain ⟨archive, -, h⟩ := Option.bind_eq_some_iff.mp h
    obtain ⟨⟨archive', shm⟩, hclose, h⟩ := Option.bind_eq_some_iff.mp h
    obtain ⟨shm', hdestroy, rfl⟩ := Option.map_eq_some_iff.mp h
    have hfewer := (Archive.close_fewer hclose).trans (Archive.destroy_fewer hdestroy)
    refine ⟨hfewer.files.ge, fun name file hname => Or.inl (hfewer.names name file hname), ?_⟩
    intro k slot queue hk hqueue
    rcases getElem?_set_cases hk with ⟨-, rfl⟩ | ⟨-, hold⟩
    · cases hqueue
    · exact Or.inl hold

theorem IpcQueue.construct_later (h : IpcQueue.construct shm params fileName = some (queue, shm')) :
    shm.files.length ≤ shm'.files.length ∧
    (∀ name file, shm'.names name = some file →
      shm.names name = some file ∨ shm.files.length ≤ file) ∧
    ((∃ name, shm.names name = some queue.file) ∨ shm.files.length ≤ queue.file) := by
  unfold IpcQueue.construct at h
  cases hname : shm.names fileName with
  | none =>
    simp only [hname, Option.some.injEq, Prod.mk.injEq] at h
    obtain ⟨rfl, rfl⟩ := h
    refine ⟨by simp, fun name file hlink => ?_, Or.inr (Nat.le_refl _)⟩
    simp only [Function.update_apply] at hlink
    split at hlink
    · exact Or.inr (Option.some.inj hlink).le
    · exact Or.inl hlink
  | some file =>
    simp only [hname] at h
    obtain ⟨f, -, h⟩ := Option.bind_eq_some_iff.mp h
    split at h
    · cases h
    · obtain ⟨rfl, rfl⟩ := Prod.mk.inj (Option.some.inj h)
      exact ⟨by simp, fun _ _ hlink => Or.inl hlink, Or.inl ⟨fileName, hname⟩⟩

theorem World.archiveCreate_later (h : w.archiveCreate i e params = some w') : w.Later w' := by
  obtain ⟨⟨queue, shm⟩, hconstruct, rfl⟩ := Option.map_eq_some_iff.mp h
  obtain ⟨hfiles, hnames, hqueue⟩ := IpcQueue.construct_later hconstruct
  refine ⟨hfiles, hnames, ?_⟩
  intro k slot q hk hq
  rcases Nat.lt_or_ge k w.heap.length with hlt | hge
  · rw [List.getElem?_append_left hlt] at hk
    exact Or.inl hk
  · rw [List.getElem?_append_right hge] at hk
    rw [List.mem_singleton.mp (List.mem_of_getElem? hk)] at hq
    obtain rfl := Option.some.inj hq
    exact Or.inr hqueue

theorem World.open_later (h : w.open i params = some w') : w.Later w' := by
  obtain ⟨closed, hclose, h⟩ := Option.bind_eq_some_iff.mp h
  obtain ⟨e, -, hcreate⟩ := Option.bind_eq_some_iff.mp h
  exact (World.close_later hclose).trans (World.archiveCreate_later hcreate)

theorem World.call_later (h : w.call c = some w') : w.Later w' := by
  cases Stepped.of_call h with
  | constructed hconstruct =>
    have hopened := World.open_later hconstruct
    exact ⟨hopened.files, hopened.names, hopened.heap⟩
  | opened hopen => exact World.open_later hopen
  | closed hclose => exact World.close_later hclose
  | claimed buffers =>
    exact ⟨Nat.le_refl _, fun _ _ hname => Or.inl hname, fun _ _ _ hk _ => Or.inl hk⟩
  | entered hf bytes =>
    exact ⟨by simp, fun _ _ hname => Or.inl hname, fun _ _ _ hk _ => Or.inl hk⟩
  | unlinked fileName =>
    exact ⟨Nat.le_refl _, fun _ _ hname => Or.inl ((linked_of_unlinked hname).2),
      fun _ _ _ hk _ => Or.inl hk⟩

theorem World.Later.of_run {ok : World → Call → Prop} (h : Reach World.call ok w w') : w.Later w' :=
  h.invariant (.refl w) fun _ _ _ hlater _ hcall => hlater.trans (World.call_later hcall)

/-- A queue unlinks its name if its file is left without writers, and a writer
only if it is left without readers too. -/
theorem World.Accounts.unlinks_iff {f : ShmFile} (h : w.Accounts) (h' : w'.Accounts)
    (hheap : w'.heap = w.heap.set k none) (hslot : w.heap[k]? = some (some archive))
    (hqueue : archive.queue = some queue) (hf : w.shm.files[queue.file]? = some f) :
    queue.unlinks f = true ↔ w'.attached queue.file true % 2 ^ 32 = 0 ∧
      (queue.isWriter = true → w'.attached queue.file false % 256 = 0) := by
  have hreaders := h.counted.readers_release hslot hqueue hf
  have hwriters := h.counted.writers_release hslot hqueue hf
  rw [← hheap, h'.attached_eq] at hreaders hwriters
  rw [IpcQueue.unlinks, Bool.and_eq_true, decide_eq_true_eq, hwriters]
  refine and_congr_right fun _ => ?_
  cases hkind : queue.isWriter with
  | false => simp
  | true =>
    have hsame : (f.deregister true).readersAndWriteOffset = f.readersAndWriteOffset := by
      simp [ShmFile.deregister]
    rw [hkind, hsame] at hreaders
    have hzero : (unwrap f.readersAndWriteOffset).numReaders = 0 ↔
        (unwrap f.readersAndWriteOffset).numReaders.toNat = 0 := UInt64.toNat_inj.symm
    simp only [Bool.not_true, Bool.false_or, decide_eq_true_eq, forall_const]
    rw [hzero, unwrap_numReaders_toNat, hreaders]

/-- Closing an endpoint and the name it was opened under. -/
theorem World.Accounts.close_names (h : w.Accounts) (hi : w.endpoints[i]? = some e)
    (hk : e.handle = some k) (hqueue : queueOf (w.native k) = some queue)
    (hclose : w.close i = some w') :
    w'.shm.names = if w'.attached queue.file true % 2 ^ 32 = 0 ∧
        (e.isPublication = true → w'.attached queue.file false % 256 = 0)
      then Function.update w.shm.names e.fileName none else w.shm.names := by
  obtain ⟨queue', hslot, hserves, heq⟩ := h.close_eq hi hk
  have hnative : w.native k = some ⟨e.isPublication, some queue'⟩ := by
    rw [World.native, hslot]
    rfl
  rw [hnative] at hqueue
  obtain rfl := Option.some.inj hqueue
  obtain ⟨w'', hclosed, h', -⟩ := h.close hi
  rw [hclosed] at hclose
  obtain rfl := Option.some.inj hclose
  rw [heq] at hclosed
  obtain rfl := Option.some.inj hclosed
  have hmem := List.mem_of_getElem? hslot
  obtain ⟨f, hf, -, -⟩ := h.counted.mapped _ hmem queue' rfl
  have hiff := h.unlinks_iff h' rfl hslot rfl hf
  rw [hserves.isWriter] at hiff
  simp only [IpcQueue.close_of_open (h.counted.fdOpen _ hmem _ rfl) hf, hserves.fileName]
  exact if_congr hiff rfl rfl

end

/-- **What becomes of a name, and of a file without one.** Closing takes away the
name, whatever file it leads to by then, if no publication is left on the file
that was closed and, for a publication, no subscription either; a subscription
does not mind the others. Once a file has no name it never gets one, and nobody
attaches to it who was not attached before. -/
theorem unlinked_file {w : World}
    (hreach : Reach World.call (fun w c => c.Possible w) World.init w) :
    (∀ (i k : Nat) (e : Endpoint) (queue : IpcQueue) (w' : World), w.endpoints[i]? = some e →
      e.handle = some k → queueOf (w.native k) = some queue → w.close i = some w' →
      w'.shm.names = if w'.attached queue.file true % 2 ^ 32 = 0 ∧
          (e.isPublication = true → w'.attached queue.file false % 256 = 0)
        then Function.update w.shm.names e.fileName none else w.shm.names) ∧
    ∀ (file : Nat) (w' : World), file < w.shm.files.length →
      (∀ name, w.shm.names name ≠ some file) →
      Reach World.call (fun w c => c.Possible w) w w' →
      (∀ name, w'.shm.names name ≠ some file) ∧
        ∀ (k : Nat) (queue : IpcQueue), queueOf (w'.native k) = some queue → queue.file = file →
          w.native k = w'.native k := by
  have h := World.Accounts.of_run hreach
  constructor
  · intro i k e queue w' hi hk hqueue hclose
    exact h.close_names hi hk hqueue hclose
  · intro file w' hfile hnone hlater
    have hlater := World.Later.of_run hlater
    refine ⟨fun name hname => ?_, fun k queue hqueue hsame => ?_⟩
    · rcases hlater.names name file hname with hold | hnew
      · exact hnone name hold
      · omega
    · obtain ⟨archive, hnative, hqueue'⟩ := Option.bind_eq_some_iff.mp hqueue
      have hslot := Option.join_eq_some_iff.mp hnative
      rcases hlater.heap k _ queue hslot hqueue' with hold | ⟨name, hname⟩ | hnew
      · rw [World.native, hold, hnative]
        rfl
      · rw [hsame] at hname
        exact absurd hname (hnone name)
      · omega

/-- The subscription that is left stays alone with its file. -/
theorem unlinked_file_two_files : ∃ w w' : World, w.attached 0 false = 1 ∧
    w'.shm.names "/q" = some 1 ∧ (∀ name, w'.shm.names name ≠ some 0) := by
  have hexec : (exec World.call (fun w c => c.Possible w) World.init (twoFiles.take 8)).any
      (fun w => decide (w.attached 0 false = 1 ∧ w.shm.files.length = 1 ∧ w.shm.names "/q" = none ∧
        w.endpoints.map Endpoint.fileName = ["/q", "/q", "/q"]) &&
      (exec World.call (fun w c => c.Possible w) w (twoFiles.drop 8)).any
        fun w' => decide (w'.shm.names "/q" = some 1)) = true := by
    decide +kernel
  obtain ⟨w, hrun, hw⟩ := exists_run_of_exec hexec
  rw [Bool.and_eq_true, decide_eq_true_eq] at hw
  obtain ⟨⟨hleft, hfiles, hunlinked, hnames⟩, hlater⟩ := hw
  obtain ⟨w', hrun', hw'⟩ := exists_run_of_exec hlater
  have h := World.Accounts.of_run ⟨_, hrun⟩
  have hnone : ∀ name, w.shm.names name ≠ some 0 := by
    intro name hname
    obtain ⟨e, he, hfile, -⟩ := h.linked hname
    have hmem : e.fileName ∈ w.endpoints.map Endpoint.fileName := List.mem_map.mpr ⟨e, he, rfl⟩
    rw [hnames, hfile] at hmem
    simp only [List.mem_cons, List.not_mem_nil, or_false, or_self] at hmem
    rw [hmem, hunlinked] at hname
    cases hname
  obtain ⟨-, hforever⟩ := unlinked_file ⟨_, hrun⟩
  exact ⟨w, w', hleft, of_decide_eq_true hw', (hforever 0 w' (by omega) hnone ⟨_, hrun'⟩).1⟩

end MockExchange
