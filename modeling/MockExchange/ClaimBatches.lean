import MockExchange.ClaimCompletion

/-!
# Claims before one commit

A publication may claim several buffers and commit them together. The readers
stop in front of the first one, so the space for the later ones has to be there
already: the batch goes through if and only if all of it, from its first message
to the end of its last, is not longer than the ring.
-/

namespace MockExchange

open ByteMemory Memory MessageHeader Transition

/-- `archive::ArchivePublication` with its queue. -/
structure ArchivePublication where
  queue : ClaimState
  toCommit : List WriterSpan

namespace ArchivePublication

def claimBuffer (params : IpcQueueParameters) (readers : ReaderSchedule) (fuel : Nat)
    (pub : ArchivePublication) (size : Nat) :
    Option (Except String WriterSpan × ArchivePublication) :=
  (MockExchange.claimBuffer params readers fuel pub.queue size).map fun (result, queue) =>
    match result with
    | .ok span => (.ok span, { queue := queue, toCommit := pub.toCommit ++ [span] })
    | .error what => (.error what, { pub with queue := queue })

/-- `wrapper.commit()`. -/
def commitSpan (queue : ClaimState) (span : WriterSpan) : ClaimState :=
  { queue with
    mem := commitBuffer queue.mem span.buffer
    unreleased := queue.unreleased.map fun block =>
      { block with committed := block.committed || decide (block.buffer = span.buffer) } }

def commit (pub : ArchivePublication) : Nat × ArchivePublication :=
  (pub.toCommit.length, { queue := pub.toCommit.foldl commitSpan pub.queue, toCommit := [] })

end ArchivePublication

/-- Claims of these sizes one after the other, all of which return. -/
inductive ClaimsReturn (params : IpcQueueParameters) (readers : ReaderSchedule) :
    ArchivePublication → List Nat → ArchivePublication → Prop where
  | nil (pub : ArchivePublication) : ClaimsReturn params readers pub [] pub
  | cons {pub next last : ArchivePublication} {fuel size : Nat} {sizes : List Nat}
      {span : WriterSpan} (hclaim : pub.claimBuffer params readers fuel size = some (.ok span, next))
      (hrest : ClaimsReturn params readers next sizes last) :
      ClaimsReturn params readers pub (size :: sizes) last

/-- All that was reserved, the bytes below `w`, is committed, and what the readers
have not released of it is in the ring. -/
structure ClaimState.AllCommitted (params : IpcQueueParameters) (s : ClaimState) (w : Nat) :
    Prop where
  committed : ∀ block ∈ s.unreleased, block.committed = true
  length : s.readOffset + totalLength s.unreleased = w
  window : w ≤ s.readOffset + params.queueSize
  lt : w < 2 ^ 64
  writeOffset : s.writeOffset = w % 2 ^ 56
  room : w % params.queueSize + sizeofMessageHeader ≤ params.queueSize

/-- The places of the messages of these sizes, one after the other from `w` on. -/
def messageStarts (Q : Nat) : Nat → List Nat → List Nat
  | _, [] => []
  | w, size :: sizes =>
    messageStart Q w size :: messageStarts Q (messageStart Q w size + (size + 18)) sizes

/-- Where the last of them ends. -/
def batchEnd (Q : Nat) : Nat → List Nat → Nat
  | w, [] => w
  | w, size :: sizes => batchEnd Q (messageStart Q w size + (size + 18)) sizes

/-- `commit` makes the `n` blocks of the batch ready, and nothing else. -/
structure CommitsAll (params : IpcQueueParameters) (pub : ArchivePublication) (n w : Nat) :
    Prop where
  returns : pub.commit.1 = n
  apart : (pub.toCommit.map WriterSpan.buffer).Nodup
  ready : ∀ a, pub.commit.2.queue.mem a =
    if a ∈ pub.toCommit.map (fun span => span.buffer + 17) then
      CommitFlag.readyForConsumer.toByte
    else pub.queue.mem a
  queue : pub.commit.2.queue.AllCommitted params w
  toCommit : pub.commit.2.toCommit = []

def BatchCommits (params : IpcQueueParameters) (readers : ReaderSchedule)
    (pub : ArchivePublication) (w : Nat) (sizes : List Nat) : Prop :=
  ∃ last, ClaimsReturn params readers pub sizes last ∧
    CommitsAll params last sizes.length (batchEnd params.queueSize w sizes)

/-- The batch is not longer than the ring, and starts in the range of the write
offset. -/
def BatchFits (Q w : Nat) (sizes : List Nat) : Prop :=
  (∀ m ∈ messageStarts Q w sizes, m < 2 ^ 56) ∧
    ∀ first ∈ (messageStarts Q w sizes).head?, batchEnd Q w sizes ≤ first + Q

instance (Q w : Nat) (sizes : List Nat) : Decidable (BatchFits Q w sizes) := by
  unfold BatchFits; infer_instance

section

variable {params : IpcQueueParameters} {readers : ReaderSchedule}
  {pub next last : ArchivePublication} {s : ClaimState} {spans : List WriterSpan}
  {sizes : List Nat} {Q w limit size : Nat} {stuck : List UnreleasedBlock}

/-! ### Where the messages are -/

theorem le_messageStart (Q w size : Nat) : w ≤ messageStart Q w size := by
  unfold messageStart
  split
  · exact Nat.le_refl w
  · exact Nat.le_add_right _ _

theorem le_batchEnd (Q : Nat) (sizes : List Nat) (w : Nat) : w ≤ batchEnd Q w sizes := by
  induction sizes generalizing w with
  | nil => exact Nat.le_refl w
  | cons size sizes ih =>
    have hle := le_messageStart Q w size
    have hrest := ih (messageStart Q w size + (size + 18))
    unfold batchEnd
    omega

theorem messageStarts_bounds {m : Nat} (hm : m ∈ messageStarts Q w sizes) :
    w ≤ m ∧ m < batchEnd Q w sizes := by
  induction sizes generalizing w with
  | nil => cases hm
  | cons size sizes ih =>
    have hle := le_messageStart Q w size
    have hend := le_batchEnd Q sizes (messageStart Q w size + (size + 18))
    unfold batchEnd
    rcases List.mem_cons.mp hm with rfl | hm
    · omega
    · have hrest := ih hm
      omega

theorem length_messageStarts (Q w : Nat) (sizes : List Nat) :
    (messageStarts Q w sizes).length = sizes.length := by
  induction sizes generalizing w with
  | nil => rfl
  | cons size sizes ih =>
    rw [messageStarts, List.length_cons, List.length_cons, ih]

theorem messageStarts_increasing : (messageStarts Q w sizes).Pairwise (· < ·) := by
  induction sizes generalizing w with
  | nil => exact .nil
  | cons size sizes ih =>
    refine List.Pairwise.cons ?_ ih
    intro m hm
    have hrest := (messageStarts_bounds hm).1
    omega

/-- Messages that start less than a ring apart have different headers. -/
theorem messageStarts_nodup {first : Nat} (hfirst : ∀ m ∈ messageStarts Q w sizes, first ≤ m)
    (hend : batchEnd Q w sizes ≤ first + Q) :
    ((messageStarts Q w sizes).map (· % Q)).Nodup := by
  rw [List.Nodup, List.pairwise_map]
  refine messageStarts_increasing.imp_of_mem ?_
  intro m m' hm hm' hlt heq
  have hlow := hfirst m hm
  have hhigh := (messageStarts_bounds hm').2
  have hzero := Nat.sub_mod_eq_zero_of_mod_eq heq.symm
  rw [Nat.mod_eq_of_lt (by omega)] at hzero
  omega

/-! ### The claims -/

theorem ClaimState.AllCommitted.at (h : s.AllCommitted params w) : s.At params w w [] where
  releasing := by
    refine ⟨⟨s.unreleased, (List.append_nil _).symm, h.committed, h.length⟩, ?_, h.lt⟩
    exact fun _ hblock => by cases hblock
  length := Nat.add_zero w
  writeOffset := h.writeOffset
  window := h.window
  lt := h.lt
  room := h.room

theorem ArchivePublication.claimBuffer_eq_ok {fuel : Nat} {span : WriterSpan}
    (h : pub.claimBuffer params readers fuel size = some (.ok span, next)) :
    MockExchange.claimBuffer params readers fuel pub.queue size = some (.ok span, next.queue) ∧
      next.toCommit = pub.toCommit ++ [span] := by
  obtain ⟨⟨result, queue⟩, hclaim, heq⟩ := Option.map_eq_some_iff.mp h
  cases result with
  | error what => cases heq
  | ok span =>
    cases heq
    exact ⟨hclaim, rfl⟩

theorem ArchivePublication.claimBuffer_of_ok {fuel : Nat} {span : WriterSpan} {t : ClaimState}
    (h : MockExchange.claimBuffer params readers fuel pub.queue size = some (.ok span, t)) :
    pub.claimBuffer params readers fuel size =
      some (.ok span, { queue := t, toCommit := pub.toCommit ++ [span] }) := by
  rw [claimBuffer, h]
  rfl

theorem checkSize_of_fits (hwriter : params.isWriter = true)
    (hsize : 0 < size ∧ size + 36 ≤ params.queueSize) : checkSize params size = .ok () := by
  have hmax : params.queueSize ≤ 2 ^ 30 := params.le_max
  have hroom : sizeofMessageHeader ≤ params.queueSize := by
    unfold sizeofMessageHeader
    omega
  rw [checkSize_eq_ok_iff, sub64_eq hroom (by omega)]
  refine ⟨hwriter, hsize.1, ?_⟩
  unfold sizeofMessageHeader
  omega

/-- What the claims of a batch leave behind. -/
structure Claims (pub last : ArchivePublication) (buffers : List Nat) : Prop where
  toCommit : last.toCommit.map WriterSpan.buffer = pub.toCommit.map WriterSpan.buffer ++ buffers
  uncommitted : last.queue.uncommitted = pub.queue.uncommitted ++ buffers

theorem Claims.refl (pub : ArchivePublication) : Claims pub pub [] := by
  constructor
  · rw [List.append_nil]
  · rw [List.append_nil]

theorem Claims.cons {m limit : Nat} {span : WriterSpan} {buffers : List Nat}
    (hclaimed : Claimed params pub.queue next.queue limit m size stuck span)
    (hcommit : next.toCommit = pub.toCommit ++ [span]) (hrest : Claims next last buffers) :
    Claims pub last (m % params.queueSize :: buffers) := by
  have hbuffer : span.buffer = m % params.queueSize := by rw [hclaimed.region]
  constructor
  · rw [hrest.toCommit, hcommit, List.map_append, List.append_assoc, ← hbuffer]
    rfl
  · rw [hrest.uncommitted, hclaimed.uncommitted, List.append_assoc, hbuffer]
    rfl

/-- Once something stops the readers it stops them for the rest of the batch. -/
theorem ClaimsReturn.of_stuck (hreturn : ClaimsReturn params readers pub sizes last)
    (hwriter : params.isWriter = true)
    (hsizes : ∀ size ∈ sizes, 0 < size ∧ size + 36 ≤ params.queueSize)
    (h : pub.queue.At params limit w stuck) (hstuck : stuck ≠ []) :
    (∀ m ∈ messageStarts params.queueSize w sizes, m < 2 ^ 56) ∧
      (∃ stuck', last.queue.At params limit (batchEnd params.queueSize w sizes) stuck') ∧
      Claims pub last ((messageStarts params.queueSize w sizes).map (· % params.queueSize)) := by
  induction hreturn generalizing w stuck with
  | nil pub => exact ⟨fun m hm => absurd hm List.not_mem_nil, ⟨stuck, h⟩, .refl pub⟩
  | @cons pub next last fuel size sizes span hclaim hrest ih =>
    have hsize := hsizes size List.mem_cons_self
    obtain ⟨hqueue, hcommit⟩ := ArchivePublication.claimBuffer_eq_ok hclaim
    have hclaimed := h.of_claimBuffer (checkSize_of_fits hwriter hsize) hsize.2 hqueue
    obtain ⟨stuck', hstuck', hnext⟩ := hclaimed.next
    rw [stopAt, if_neg hstuck] at hnext
    obtain ⟨hrange, hlast, hclaims⟩ :=
      ih (fun n hn => hsizes n (List.mem_cons_of_mem _ hn)) hnext hstuck'
    refine ⟨?_, hlast, .cons hclaimed hcommit hclaims⟩
    intro m hm
    rcases List.mem_cons.mp hm with rfl | hm
    · exact hclaimed.range
    · exact hrange m hm

/-- The first message of the batch stops the readers. -/
theorem ClaimsReturn.of_allCommitted (hreturn : ClaimsReturn params readers pub sizes last)
    (hwriter : params.isWriter = true)
    (hsizes : ∀ size ∈ sizes, 0 < size ∧ size + 36 ≤ params.queueSize)
    (h : pub.queue.AllCommitted params w) :
    (∀ m ∈ messageStarts params.queueSize w sizes, m < 2 ^ 56) ∧
      (∃ limit stuck, last.queue.At params limit (batchEnd params.queueSize w sizes) stuck ∧
        ∀ first ∈ (messageStarts params.queueSize w sizes).head?, limit = first) ∧
      Claims pub last ((messageStarts params.queueSize w sizes).map (· % params.queueSize)) := by
  cases hreturn with
  | nil =>
    refine ⟨fun m hm => absurd hm List.not_mem_nil, ⟨w, [], h.at, ?_⟩, .refl pub⟩
    exact fun first hfirst => by cases hfirst
  | @cons _ next _ fuel size sizes span hclaim hrest =>
    have hsize := hsizes size List.mem_cons_self
    obtain ⟨hqueue, hcommit⟩ := ArchivePublication.claimBuffer_eq_ok hclaim
    have hclaimed := h.at.of_claimBuffer (checkSize_of_fits hwriter hsize) hsize.2 hqueue
    obtain ⟨stuck, hstuck, hnext⟩ := hclaimed.next
    rw [stopAt, if_pos rfl] at hnext
    obtain ⟨hrange, ⟨stuck', hlast⟩, hclaims⟩ := hrest.of_stuck hwriter
      (fun n hn => hsizes n (List.mem_cons_of_mem _ hn)) hnext hstuck
    refine ⟨?_, ⟨_, stuck', hlast, ?_⟩, .cons hclaimed hcommit hclaims⟩
    · intro m hm
      rcases List.mem_cons.mp hm with rfl | hm
      · exact hclaimed.range
      · exact hrange m hm
    · exact fun first hfirst => Option.some.inj hfirst

theorem ClaimsReturn.exists_of_stuck (hwriter : params.isWriter = true)
    (hkeeps : readers.KeepsReleasing)
    (hsizes : ∀ size ∈ sizes, 0 < size ∧ size + 36 ≤ params.queueSize)
    (h : pub.queue.At params limit w stuck) (hstuck : stuck ≠ [])
    (hrange : ∀ m ∈ messageStarts params.queueSize w sizes, m < 2 ^ 56)
    (hend : batchEnd params.queueSize w sizes ≤ limit + params.queueSize) :
    ∃ last, ClaimsReturn params readers pub sizes last := by
  induction sizes generalizing pub w stuck with
  | nil => exact ⟨pub, .nil pub⟩
  | cons size sizes ih =>
    have hsize := hsizes size List.mem_cons_self
    have haccepted := checkSize_of_fits hwriter hsize
    have hle := le_batchEnd params.queueSize sizes
      (messageStart params.queueSize w size + (size + 18))
    have hfits : messageStart params.queueSize w size + (size + 18) ≤
        stopAt stuck limit (messageStart params.queueSize w size) + params.queueSize := by
      rw [stopAt, if_neg hstuck]
      exact Nat.le_trans hle hend
    obtain ⟨n, span, t, hqueue⟩ := h.exists_claimBuffer haccepted hsize.2 hkeeps
      (hrange _ List.mem_cons_self) hfits
    have hreturn := hqueue (n + 1) (Nat.lt_succ_self n)
    have hclaimed := h.of_claimBuffer haccepted hsize.2 hreturn
    obtain ⟨stuck', hstuck', hnext⟩ := hclaimed.next
    rw [stopAt, if_neg hstuck] at hnext
    let next : ArchivePublication := ⟨t, pub.toCommit ++ [span]⟩
    have hnext' : next.queue.At params limit _ stuck' := hnext
    obtain ⟨last, hrest⟩ := ih
      (fun n hn => hsizes n (List.mem_cons_of_mem _ hn)) hnext' hstuck'
      (fun m hm => hrange m (List.mem_cons_of_mem _ hm)) hend
    exact ⟨last, .cons (ArchivePublication.claimBuffer_of_ok hreturn) hrest⟩

theorem ClaimsReturn.exists_of_fits (hwriter : params.isWriter = true)
    (hkeeps : readers.KeepsReleasing)
    (hsizes : ∀ size ∈ sizes, 0 < size ∧ size + 36 ≤ params.queueSize)
    (h : pub.queue.AllCommitted params w) (hfits : BatchFits params.queueSize w sizes) :
    ∃ last, ClaimsReturn params readers pub sizes last := by
  obtain ⟨hrange, hend⟩ := hfits
  cases sizes with
  | nil => exact ⟨pub, .nil pub⟩
  | cons size sizes =>
    have hsize := hsizes size List.mem_cons_self
    have haccepted := checkSize_of_fits hwriter hsize
    have hfirst : messageStart params.queueSize w size + (size + 18) ≤
        stopAt [] w (messageStart params.queueSize w size) + params.queueSize := by
      rw [stopAt, if_pos rfl]
      omega
    obtain ⟨n, span, t, hqueue⟩ := h.at.exists_claimBuffer haccepted hsize.2 hkeeps
      (hrange _ List.mem_cons_self) hfirst
    have hreturn := hqueue (n + 1) (Nat.lt_succ_self n)
    have hclaimed := h.at.of_claimBuffer haccepted hsize.2 hreturn
    obtain ⟨stuck, hstuck, hnext⟩ := hclaimed.next
    rw [stopAt, if_pos rfl] at hnext
    let next : ArchivePublication := ⟨t, pub.toCommit ++ [span]⟩
    have hnext' : next.queue.At params (messageStart params.queueSize w size) _ stuck := hnext
    obtain ⟨last, hrest⟩ := ClaimsReturn.exists_of_stuck hwriter hkeeps
      (fun n hn => hsizes n (List.mem_cons_of_mem _ hn)) hnext' hstuck
      (fun m hm => hrange m (List.mem_cons_of_mem _ hm)) (hend _ rfl)
    exact ⟨last, .cons (ArchivePublication.claimBuffer_of_ok hreturn) hrest⟩

/-! ### The commit -/

theorem commitSpans_mem (spans : List WriterSpan) (s : ClaimState) (a : Nat) :
    (spans.foldl ArchivePublication.commitSpan s).mem a =
      if a ∈ spans.map (fun span => span.buffer + 17) then CommitFlag.readyForConsumer.toByte
      else s.mem a := by
  induction spans generalizing s with
  | nil => rfl
  | cons span spans ih =>
    rw [List.foldl_cons, ih, List.map_cons]
    by_cases hrest : a ∈ spans.map fun span => span.buffer + 17
    · rw [if_pos hrest, if_pos (List.mem_cons_of_mem _ hrest)]
    · rw [if_neg hrest]
      by_cases hspan : a = span.buffer + 17
      · rw [if_pos (hspan ▸ List.mem_cons_self), hspan]
        exact commitFlag_set .readyForConsumer
      · rw [if_neg (by simp [hspan, hrest])]
        exact setCommitFlag_sameOutside s.mem span.buffer .readyForConsumer a (by omega)

/-- The commits change nothing but flags. -/
theorem commitSpans_unreleased (spans : List WriterSpan) (s : ClaimState) :
    (spans.foldl ArchivePublication.commitSpan s).unreleased = s.unreleased.map fun block =>
      { block with
        committed := block.committed || decide (block.buffer ∈ spans.map WriterSpan.buffer) } := by
  induction spans generalizing s with
  | nil => simp
  | cons span spans ih =>
    rw [List.foldl_cons, ih]
    simp only [ArchivePublication.commitSpan, List.map_map, List.map_cons, List.mem_cons,
      Function.comp_def]
    congr 1
    funext block
    rw [Bool.decide_or, Bool.or_assoc]

theorem commitSpans_rest (spans : List WriterSpan) (s : ClaimState) :
    (spans.foldl ArchivePublication.commitSpan s).readOffset = s.readOffset ∧
      (spans.foldl ArchivePublication.commitSpan s).writeOffset = s.writeOffset := by
  induction spans generalizing s with
  | nil => exact ⟨rfl, rfl⟩
  | cons span spans ih => exact ih _

/-- A commit of every block that is not committed. -/
theorem ClaimState.At.commit (h : last.queue.At params limit w stuck)
    (huncommitted : last.queue.uncommitted = last.toCommit.map WriterSpan.buffer) :
    last.commit.2.queue.AllCommitted params w := by
  obtain ⟨hread, hwrite⟩ := commitSpans_rest last.toCommit last.queue
  obtain ⟨left, hblocks, -, hlimit⟩ := h.releasing.left
  refine ⟨?_, ?_, ?_, h.lt, hwrite.trans h.writeOffset, h.room⟩
  · intro block hblock
    rw [ArchivePublication.commit, commitSpans_unreleased, List.mem_map] at hblock
    obtain ⟨old, hold, rfl⟩ := hblock
    cases hcommitted : old.committed with
    | true => rfl
    | false =>
      have hmem : old.buffer ∈ last.queue.uncommitted :=
        List.mem_map_of_mem (List.mem_filter.mpr ⟨hold, by rw [hcommitted]; rfl⟩)
      rw [huncommitted] at hmem
      simp only [hmem, decide_true, Bool.or_true]
  · have hlength := h.length
    have htotal : totalLength last.commit.2.queue.unreleased =
        totalLength last.queue.unreleased := by
      rw [ArchivePublication.commit, commitSpans_unreleased]
      simp [totalLength, Function.comp_def]
    rw [htotal, hblocks, totalLength_append]
    change (last.toCommit.foldl ArchivePublication.commitSpan last.queue).readOffset + _ = w
    rw [hread]
    omega
  · change w ≤ (last.toCommit.foldl ArchivePublication.commitSpan last.queue).readOffset + _
    rw [hread]
    exact h.window

/-- A batch of claims goes through, however fast the readers release, if and only
if it is not longer than the ring. No other publication claims meanwhile. -/
theorem batch_commits_iff (hwriter : params.isWriter = true)
    (hqueue : pub.queue.AllCommitted params w) (hnone : pub.toCommit = [])
    (hsizes : ∀ size ∈ sizes, 0 < size ∧ size + 36 ≤ params.queueSize) :
    (∀ readers, readers.KeepsReleasing → BatchCommits params readers pub w sizes) ↔
      BatchFits params.queueSize w sizes := by
  constructor
  · intro hall
    let readers : ReaderSchedule := ⟨fun _ => 1, fun _ m => m⟩
    have hkeeps : readers.KeepsReleasing := fun n => ⟨n, Nat.le_refl n, Nat.one_pos⟩
    obtain ⟨last, hreturn, -⟩ := hall readers hkeeps
    obtain ⟨hrange, ⟨limit, stuck, hlast, hfirst⟩, -⟩ :=
      hreturn.of_allCommitted hwriter hsizes hqueue
    refine ⟨hrange, ?_⟩
    intro first hmem
    obtain rfl := hfirst first hmem
    exact Nat.le_trans hlast.window (Nat.add_le_add_right hlast.releasing.readOffset_le _)
  · intro hfits readers hkeeps
    obtain ⟨last, hreturn⟩ := ClaimsReturn.exists_of_fits hwriter hkeeps hsizes hqueue hfits
    obtain ⟨-, ⟨limit, stuck, hlast, -⟩, hclaims⟩ :=
      hreturn.of_allCommitted hwriter hsizes hqueue
    have hpending : pub.queue.uncommitted = [] := by
      rw [ClaimState.uncommitted, List.filter_eq_nil_iff.mpr, List.map_nil]
      intro block hblock
      simp [hqueue.committed block hblock]
    have hbuffers := hclaims.toCommit
    have huncommitted := hclaims.uncommitted
    rw [hnone, List.map_nil, List.nil_append] at hbuffers
    rw [hpending, List.nil_append, ← hbuffers] at huncommitted
    refine ⟨last, hreturn, ?_, ?_, commitSpans_mem _ _, hlast.commit huncommitted, rfl⟩
    · have hlength := congrArg List.length hbuffers
      rw [List.length_map, List.length_map] at hlength
      rw [← length_messageStarts params.queueSize w sizes]
      exact hlength
    · rw [hbuffers]
      cases hstarts : messageStarts params.queueSize w sizes with
      | nil => exact List.nodup_nil
      | cons first starts =>
        rw [← hstarts]
        refine messageStarts_nodup ?_ (hfits.2 first (by rw [hstarts]; rfl))
        have hincreasing : (messageStarts params.queueSize w sizes).Pairwise (· < ·) :=
          messageStarts_increasing
        intro m hm
        rw [hstarts] at hincreasing hm
        rcases List.mem_cons.mp hm with rfl | hm
        · exact Nat.le_refl _
        · exact ((List.pairwise_cons.mp hincreasing).1 m hm).le

end

/-! ### Two claims -/

/-- A publication on a new queue. -/
def newPublication : ArchivePublication where
  queue := .start (fun _ => 0) Offsets.init
  toCommit := []

theorem newPublication_allCommitted (params : IpcQueueParameters)
    (hroom : sizeofMessageHeader ≤ params.queueSize) :
    newPublication.queue.AllCommitted params 0 where
  committed := fun _ hblock => absurd hblock List.not_mem_nil
  length := rfl
  window := Nat.zero_le _
  lt := by decide
  writeOffset := rfl
  room := by
    rw [Nat.zero_mod, Nat.zero_add]
    exact hroom

/-- Two claims of 10 bytes in a ring of 128 bytes. -/
theorem batch_commits_two : ∃ params : IpcQueueParameters, params.queueSize = 128 ∧
    newPublication.queue.AllCommitted params 0 ∧
      ∀ readers, readers.KeepsReleasing → BatchCommits params readers newPublication 0 [10, 10] := by
  have hroom : sizeofMessageHeader ≤ 128 := by decide
  refine ⟨⟨128, true, by decide, by decide⟩, rfl, newPublication_allCommitted _ hroom, ?_⟩
  exact (batch_commits_iff rfl (newPublication_allCommitted _ hroom) rfl (by decide)).mpr
    (by decide)

/-- In a ring of 64 bytes the second of two claims of 28 bytes needs the space of
the first one. -/
theorem batch_never_commits : ∃ params : IpcQueueParameters, params.queueSize = 64 ∧
    newPublication.queue.AllCommitted params 0 ∧
      ∀ readers, ¬ BatchCommits params readers newPublication 0 [28, 28] := by
  have hroom : sizeofMessageHeader ≤ 64 := by decide
  refine ⟨⟨64, true, by decide, by decide⟩, rfl, newPublication_allCommitted _ hroom, ?_⟩
  rintro readers ⟨last, hreturn, -⟩
  obtain ⟨-, ⟨limit, stuck, hlast, hfirst⟩, -⟩ :=
    hreturn.of_allCommitted rfl (by decide) (newPublication_allCommitted _ hroom)
  have hlimit : limit = 0 := hfirst 0 (by decide)
  have hread := hlast.releasing.readOffset_le
  have hwindow : 110 ≤ last.queue.readOffset + 64 := hlast.window
  omega

end MockExchange
