import MockExchange.ReadBuffer

/-!
# The message in a reader wrapper

A reader wrapper is a view of the block in the ring, made of the pointer and the
size that `poll_buffer` found. What its accessors read they read from the ring,
each time anew; as long as the wrapper is not released they read the message that
was committed, whatever writers and other readers do.
-/

namespace MockExchange

open ByteMemory Tiling MessageHeader Transition ListUpdate

/-- The span of an `IpcQueueRaiiWrapper`: where it starts in the ring, and its bytes. -/
structure WrapperSpan where
  data : Nat
  sizeBytes : Nat
deriving DecidableEq, Repr

namespace WrapperSpan

variable (w : WrapperSpan) (m : Memory)

/-- `get_as_view`. -/
def getAsView : List UInt8 := payload m w.data (w.sizeBytes - sizeofMessageHeader)

/-- `get_as` of a type of `n` bytes. -/
def getAs (n : Nat) : List UInt8 := payload m w.data n

/-- `copy_contents_into`: the destination behind the copy, and the result. -/
def copyContentsInto (dest : List UInt8) : List UInt8 × Nat :=
  let size := w.sizeBytes - sizeofMessageHeader
  (payload m w.data size ++ dest.drop size, size)

/-- `get_buffer`. -/
def getBuffer : Option Nat :=
  if commitFlag m w.data = CommitFlag.readyForConsumer.toByte then
    some (w.data + sizeofMessageHeader)
  else none

def getPayloadSize : Nat := messageSize m w.data

end WrapperSpan

variable (Q : RingSize)

/-- The span of the wrapper that `poll_buffer` hands to `rd`. -/
def State.polledSpan (s : State) (rd : Reader) : WrapperSpan :=
  let hdr := rd.absReadOffset % Q.bytes
  ⟨hdr, messageSize s.mem hdr + sizeofMessageHeader⟩

/-- Every accessor of the wrapper shows `message`. -/
structure WrapperSpan.Holds (w : WrapperSpan) (m : Memory) (message : List UInt8) : Prop where
  getAsView : w.getAsView m = message
  getAs : ∀ n ≤ message.length, w.getAs m n = message.take n
  copyContentsInto : ∀ dest, w.copyContentsInto m dest =
    (message ++ dest.drop message.length, message.length)
  getBuffer : w.getBuffer m = some (w.data + sizeofMessageHeader)
  getPayloadSize : w.getPayloadSize m = message.length

section

variable {Q} {s t : State} {b : Block} {r : Nat} {rd : Reader}

theorem payload_take (m : Memory) (hdr : Nat) {n k : Nat} (hle : n ≤ k) :
    payload m hdr n = (payload m hdr k).take n := by
  obtain ⟨l, rfl⟩ := Nat.exists_eq_add_of_le hle
  rw [payload, payload, Memory.bytes_add, List.take_left' Memory.length_bytes]

theorem WrapperSpan.Holds.of_payload {w : WrapperSpan} {m : Memory} {message : List UInt8}
    (hsize : w.sizeBytes = message.length + sizeofMessageHeader)
    (hpayload : payload m w.data message.length = message)
    (hflag : commitFlag m w.data = CommitFlag.readyForConsumer.toByte)
    (hheader : messageSize m w.data = message.length) : w.Holds m message := by
  have hpayloadSize : w.sizeBytes - sizeofMessageHeader = message.length := by omega
  refine ⟨?_, ?_, ?_, ?_, hheader⟩
  · rw [WrapperSpan.getAsView, hpayloadSize, hpayload]
  · intro n hn
    rw [WrapperSpan.getAs, payload_take m w.data hn, hpayload]
  · intro dest
    simp only [WrapperSpan.copyContentsInto, hpayloadSize, hpayload]
  · rw [WrapperSpan.getBuffer, if_pos hflag]

/-- A reader that has a wrapper of a committed message sees it through the wrapper. -/
theorem ChannelInv.holds (hi : ChannelInv Q s) (hrd : rd ∈ s.readers)
    {w : WrapperSpan} (howns : Owns Q s rd w.data b) (hdelivers : s.delivers Q b = true)
    (hsize : w.sizeBytes = b.size + sizeofMessageHeader) : w.Holds s.mem b.data := by
  have hb := howns.mem_log
  have hheader := hi.inv.header hrd hb howns.settled howns.pending
  have hpayload := hi.delivered.payload_eq hi.inv hrd howns hdelivers
  have hfull := hi.delivered.full b hb
  simp only [State.delivers, Bool.and_eq_true, decide_eq_true_eq, Bool.not_eq_true'] at hdelivers
  have hmem := hi.inv.block b hb hheader.live
  have hmessage := hmem.messageSize (by rw [hdelivers.1]; decide) hheader.pending_pos
  rw [Block.messageSize, hdelivers.2, ← howns.hdr_eq] at hmessage
  simp only [Bool.false_eq_true, if_false] at hmessage
  rw [hmessage, ← hfull] at hpayload
  refine .of_payload (by rw [hsize, hfull]) hpayload ?_ (by rw [hmessage, hfull])
  rw [howns.hdr_eq, hheader.flag, hdelivers.1]
  rfl

/-- **A wrapper keeps its message.** From the poll that hands it out until its
reader's next step every accessor shows the committed message. -/
theorem held_message (hreach : Reach (step Q) (ChannelRun Q) State.init s)
    (hrd : s.readers[r]? = some rd) (hpc : rd.pc = .idle) (hfound : s.PollsSettled Q rd)
    (hout : pollOutcome Q s.mem rd.absReadOffset = .wrapper)
    (hothers : Reach (step Q) (BesideRun Q r) (pollHeader Q s r rd) t) :
    ∃ b ∈ s.log, b.offset = rd.absReadOffset ∧ s.stage b.offset = .committed ∧
      (s.polledSpan Q rd).Holds t.mem b.data := by
  have hi : ChannelInv Q s := .of_run hreach
  have hmem := List.mem_of_getElem? hrd
  have hsettled : s.SettledAt rd.absReadOffset := hfound (by simp [hout])
  obtain ⟨b, howns⟩ := hi.inv.owns_of_staying hrd (Or.inl hpc) hsettled
  obtain ⟨hflag, -, htype⟩ := pollOutcome_ready hout (Or.inl rfl)
  have hst := hi.inv.committed_of_flag hmem howns hflag
  have hpad : b.isPadding Q = false := by
    have htype' := hi.inv.isPadding_iff_type hmem howns
    rw [htype'] at htype
    simpa using htype
  have hdelivers := State.delivers_of_committed hst hpad
  have hpolls : ChannelRun Q s (.poll r) := by
    refine ⟨fun rd' hrd' => ?_, trivial⟩
    rw [hrd, Option.mem_some_iff] at hrd'
    exact hrd' ▸ hfound
  have hpolled : ChannelInv Q (pollHeader Q s r rd) := hi.step hpolls (by simp [step, hrd, hpc])
  let held : Reader := { rd with
    pc := .holding (rd.absReadOffset % Q.bytes)
    received := rd.received ++ [payload s.mem (rd.absReadOffset % Q.bytes)
      (messageSize s.mem (rd.absReadOffset % Q.bytes))] }
  have hmoves : s.MovesReader (pollHeader Q s r rd) r held := by
    simp only [pollHeader, hout]
    exact ⟨rfl, rfl, rfl, rfl⟩
  obtain ⟨ht, hlater⟩ := hpolled.later (hmoves.getElem? hrd) hothers
  have hheld : t.readers[r]? = some held := hlater.reader.trans (hmoves.getElem? hrd)
  have hb : b ∈ (pollHeader Q s r rd).log := by
    rw [hmoves.log]
    exact howns.mem_log
  have hstage : t.stage b.offset = .committed := by
    rw [hlater.stage b hb (by rw [hmoves.stage]; exact howns.settled), hmoves.stage, hst]
  have howns' : Owns Q t held (rd.absReadOffset % Q.bytes) b :=
    ⟨hlater.mem_log hpolled.inv hb, howns.hdr_eq, howns.position, by rw [hstage]; rfl,
      howns.pending⟩
  have hsize := (hi.inv.header hmem howns.mem_log howns.settled howns.pending).total
  have hspan : (s.polledSpan Q rd).sizeBytes = b.size + sizeofMessageHeader := by
    rw [State.polledSpan, howns.hdr_eq, hsize]
    rcases (hi.inv.shape b howns.mem_log).cases with ⟨-, hlength, -⟩ | ⟨hpadding, -⟩
    · exact hlength
    · rw [hpad] at hpadding
      cases hpadding
  exact ⟨b, howns.mem_log, howns.position.symm, hst, ht.holds (List.mem_of_getElem? hheld) howns'
    (State.delivers_of_committed hstage hpad) hspan⟩

end

/-- Another reader is done with the message and has closed, a writer has filled
the next block, which is larger, and a third claim was aborted. -/
theorem held_message_beside_others : ∃ (s t : State) (rd : Reader),
    s.readers[0]? = some rd ∧ t.readOffset = 0 ∧ t.writeOffset = 58 ∧ t.stage 39 = .aborted ∧
      t.readers.map Reader.decremented = [[], [0]] ∧
      ∃ b ∈ s.log, (s.polledSpan .of512 rd).Holds t.mem b.data := by
  let b : Block := ⟨0, 19, 1, 2, [7]⟩
  let c : Block := ⟨19, 20, 2, 1, [8, 9]⟩
  let d : Block := ⟨39, 19, 1, 1, [7]⟩
  let claim (b : Block) : List Action := [.reserve b.size b.data, .loadReadOffset b,
    .storeHeader b, .storeHeader b, .storeHeader b, .storeHeader b]
  let labels : List Action := [.join, .join] ++ claim b ++ [.writeToBuffer b]
  let others : List Action := [.poll 1, .callRelease 1, .releaseStep 1, .leave 1, .drain 1] ++
    claim c ++ [.writeToBuffer c] ++ claim d ++ [.abortBuffer d]
  have hexec : (exec (step .of512) (ChannelRun .of512) State.init labels).any (fun s =>
      s.readers[0]?.any fun rd => decide (rd.pc = .idle ∧ s.PollsSettled .of512 rd ∧
        pollOutcome .of512 s.mem rd.absReadOffset = .wrapper) &&
          (exec (step .of512) (BesideRun .of512 0) (pollHeader .of512 s 0 rd) others).any
            fun t => decide (t.readOffset = 0 ∧ t.writeOffset = 58 ∧ t.stage 39 = .aborted ∧
              t.readers.map Reader.decremented = [[], [0]])) = true := by
    decide +kernel
  obtain ⟨s, hrun, hs⟩ := exists_run_of_exec hexec
  obtain ⟨rd, hrd, hs⟩ := (Option.any_eq_true _ _).mp hs
  rw [Bool.and_eq_true, decide_eq_true_eq] at hs
  obtain ⟨⟨hpc, hfound, hout⟩, hothers⟩ := hs
  obtain ⟨t, hlater, ht⟩ := exists_run_of_exec hothers
  obtain ⟨hread, hwrite, haborted, hdecremented⟩ := of_decide_eq_true ht
  obtain ⟨b, hb, -, -, hholds⟩ :=
    held_message ⟨labels, hrun⟩ hrd hpc hfound hout ⟨others, hlater⟩
  exact ⟨s, t, rd, hrd, hread, hwrite, haborted, hdecremented, b, hb, hholds⟩

end MockExchange
