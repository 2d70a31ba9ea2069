import MockExchange.Handlers

/-!
# Admin messages from sender to agent

A controller fills an admin message in with assignments to the attributes of the
claimed structure, and the `AdminClient` of every agent reads it back field by
field. Whatever an earlier message left in the claimed bytes, the client sees
what was assigned: it maps each symbol to the last id it was added with, and
calls its agent's `handle_shutdown` once for each shutdown that names the agent
or all agents.
-/

namespace MockExchange

open ByteMemory Memory PackedRecord ByteReading ArchiveMessages

/-- An admin message, by the attributes that its sender assigns. -/
inductive AdminMessage where
  | newSymbolAdd (symbolName : List UInt8) (symbolId createTimeEpochNs : Nat)
  | agentShutdown (destAgentName reason : List UInt8)
  | allAgentsShutdown (reason : List UInt8)
deriving DecidableEq, Repr

namespace AdminMessage

def struct : AdminMessage → MessageStruct
  | newSymbolAdd _ _ _ => ArchiveMessages.newSymbolAdd
  | agentShutdown _ _ => ArchiveMessages.agentShutdown
  | allAgentsShutdown _ => ArchiveMessages.allAgentsShutdown

def attributes : AdminMessage → List (String × Value)
  | newSymbolAdd symbolName symbolId createTimeEpochNs =>
    [("symbolName", .text symbolName), ("symbolId", .number symbolId),
      ("createTimeEpochNs", .number createTimeEpochNs)]
  | agentShutdown destAgentName reason =>
    [("destAgentName", .text destAgentName), ("reason", .text reason)]
  | allAgentsShutdown reason => [("reason", .text reason)]

/-- The texts of the message. -/
def texts : AdminMessage → List (List UInt8)
  | newSymbolAdd symbolName _ _ => [symbolName]
  | agentShutdown destAgentName reason => [destAgentName, reason]
  | allAgentsShutdown reason => [reason]

/-- Values that the fields have, and texts that are ASCII without a terminator. -/
structure WellFormed (message : AdminMessage) : Prop where
  fits : ∀ pair ∈ message.attributes, ∀ offset type,
    message.struct.layout.find? pair.1 = some (offset, type) → pair.2.Fits type
  ascii : ∀ text ∈ message.texts, isAscii text = true
  nulFree : ∀ pair ∈ message.attributes, pair.2.NulFree

/-- The bytes from 0 on hold the message, filled into a claimed buffer that held
anything. -/
def WrittenTo (message : AdminMessage) (m : Memory) : Prop :=
  ∃ old filled, message.struct.layout.setattrs 0 old
      (message.struct.assignments message.attributes) = some filled ∧
    SameOn filled m 0 message.struct.layout.size

/-- The id that the message adds a symbol with. -/
def addedId (symbolName : List UInt8) : AdminMessage → Option Nat
  | newSymbolAdd name symbolId _ => if name = symbolName then some symbolId else none
  | _ => none

/-- The call that the message causes on the agent of that name. -/
def shutdownOf (agentName : List UInt8) : AdminMessage → Option AgentCall
  | agentShutdown destAgentName reason =>
    if agentName = destAgentName then some (.handleShutdown reason) else none
  | allAgentsShutdown reason => some (.handleShutdown reason)
  | newSymbolAdd _ _ _ => none

end AdminMessage

/-- The client after it received the message. -/
def AdminClient.received (client : AdminClient) : AdminMessage → AdminClient
  | .newSymbolAdd symbolName symbolId _ => { client with
      symbolMapping := Function.update client.symbolMapping symbolName (some symbolId) }
  | .agentShutdown destAgentName reason =>
    if client.agentName = destAgentName then client.call (.handleShutdown reason) else client
  | .allAgentsShutdown reason => client.call (.handleShutdown reason)

/-- The messages a client polls, one after the other: what its handler returns,
and the client afterwards. -/
def AdminClient.pollAll (client : AdminClient) :
    List (AdminMessage × Memory) → List AdminResult × AdminClient
  | [] => ([], client)
  | (message, m) :: rest =>
    let (result, client) := (client.handleAdminInputs message.struct.layout.size).run m
    let (results, client) := pollAll client rest
    (result :: results, client)

section

variable {message : AdminMessage} {m : Memory} {client : AdminClient} {layout : Layout}
  {name : String} {offset width : Nat}

/-! ### One message -/

theorem AdminMessage.struct_mem (message : AdminMessage) : message.struct ∈ structs := by
  have hall : ArchiveMessages.newSymbolAdd ∈ structs ∧ ArchiveMessages.agentShutdown ∈ structs ∧
      ArchiveMessages.allAgentsShutdown ∈ structs := by
    decide
  cases message with
  | newSymbolAdd => exact hall.1
  | agentShutdown => exact hall.2.1
  | allAgentsShutdown => exact hall.2.2

theorem MessageStruct.headerSize_le (c : MessageStruct) : messageHeader.size ≤ c.layout.size := by
  simp only [Layout.size, MessageStruct.layout, List.map_append, List.sum_append]
  omega

theorem AdminMessage.assignments_nodup (message : AdminMessage) :
    ((message.struct.assignments message.attributes).map Prod.fst).Nodup := by
  cases message with
  | newSymbolAdd =>
    change ["header.templateId", "header.schemaId", "header.version", "header.blockLength",
      "symbolName", "symbolId", "createTimeEpochNs"].Nodup
    decide +kernel
  | agentShutdown =>
    change ["header.templateId", "header.schemaId", "header.version", "header.blockLength",
      "destAgentName", "reason"].Nodup
    decide +kernel
  | allAgentsShutdown =>
    change ["header.templateId", "header.schemaId", "header.version", "header.blockLength",
      "reason"].Nodup
    decide +kernel

/-- An attribute that was assigned is read back. -/
theorem AdminMessage.WrittenTo.getattr (hwritten : message.WrittenTo m)
    (hwell : message.WellFormed) {v : Value} {type : FieldType}
    (hmem : (name, v) ∈ message.attributes)
    (hfound : message.struct.layout.find? name = some (offset, type)) :
    message.struct.layout.getattr 0 m name = some v := by
  obtain ⟨old, filled, hset, hsame⟩ := hwritten
  have hnodup := message.assignments_nodup
  rw [Layout.getattr_congr hsame]
  exact Layout.getattr_setattrs hnodup hset hfound
    (Layout.lookup_of_mem hnodup (List.mem_append_right _ hmem)) (hwell.fits _ hmem _ _ hfound)
    (hwell.nulFree _ hmem)

theorem run_readField (hfound : layout.find? name = some (offset, .unsigned width)) {n : Nat}
    (hget : layout.getattr 0 m name = some (.number n)) : (readField layout name).run m = n := by
  simp only [Layout.getattr, hfound, Option.map_some, Option.some.injEq, FieldType.decode,
    Value.number.injEq, Nat.zero_add] at hget
  simp only [readField, hfound, run_readNumber]
  exact_mod_cast hget

theorem run_readChars (hfound : layout.find? name = some (offset, .chars width))
    {text : List UInt8} (hget : layout.getattr 0 m name = some (.text text)) :
    (readChars layout name).run m = text := by
  simp only [Layout.getattr, hfound, Option.map_some, Option.some.injEq, FieldType.decode,
    Value.text.injEq, Nat.zero_add] at hget
  simp only [readChars, hfound, run_readText]
  exact hget

/-- The header that `__enter__` stored is read back. -/
theorem AdminMessage.WrittenTo.templateId (hwritten : message.WrittenTo m) :
    (readField messageHeader "header.templateId").run m = message.struct.templateId := by
  obtain ⟨old, filled, hset, hsame⟩ := hwritten
  have hnodup := message.assignments_nodup
  have hfound : message.struct.layout.find? "header.templateId" = some (2, .unsigned 2) := rfl
  have hmem : ("header.templateId", Value.number message.struct.templateId) ∈
      message.struct.assignments message.attributes :=
    List.mem_append_left _ List.mem_cons_self
  have hfits : (Value.number message.struct.templateId).Fits (.unsigned 2) := by
    have hlt := (structs_wellFormed.2 _ message.struct_mem).2.1
    exact ⟨Int.natCast_nonneg _, by exact_mod_cast hlt⟩
  have hget := Layout.getattr_setattrs hnodup hset hfound (Layout.lookup_of_mem hnodup hmem)
    hfits trivial
  rw [← Layout.getattr_congr hsame] at hget
  exact run_readField rfl hget

theorem AdminClient.handle_written (client : AdminClient) (hwell : message.WellFormed)
    (hwritten : message.WrittenTo m) :
    (client.handleAdminInputs message.struct.layout.size).run m =
      (.returned 0, client.received message) := by
  have htemplate := hwritten.templateId
  have hsize := Nat.not_lt.mpr message.struct.headerSize_le
  rw [handleAdminInputs, if_neg hsize, run_bind, htemplate]
  cases message with
  | newSymbolAdd symbolName symbolId createTimeEpochNs =>
    have hname : (readChars ArchiveMessages.newSymbolAdd.layout "symbolName").run m = symbolName :=
      run_readChars rfl (hwritten.getattr hwell (by simp [AdminMessage.attributes]) rfl)
    have hid : (readField ArchiveMessages.newSymbolAdd.layout "symbolId").run m = symbolId :=
      run_readField rfl (hwritten.getattr hwell (by simp [AdminMessage.attributes]) rfl)
    have hascii : isAscii symbolName = true := hwell.ascii _ (by simp [AdminMessage.texts])
    simp only [AdminMessage.struct, if_true]
    rw [handleSymbolAdd, run_bind, hname, if_pos hascii, run_bind, hid]
    rfl
  | agentShutdown destAgentName reason =>
    have hname : (readChars ArchiveMessages.agentShutdown.layout "destAgentName").run m =
        destAgentName :=
      run_readChars rfl (hwritten.getattr hwell (by simp [AdminMessage.attributes]) rfl)
    have hreason : (readChars ArchiveMessages.agentShutdown.layout "reason").run m = reason :=
      run_readChars rfl (hwritten.getattr hwell (by simp [AdminMessage.attributes]) rfl)
    have hascii : isAscii destAgentName = true := hwell.ascii _ (by simp [AdminMessage.texts])
    have hascii' : isAscii reason = true := hwell.ascii _ (by simp [AdminMessage.texts])
    have hother : ArchiveMessages.agentShutdown.templateId ≠
        ArchiveMessages.newSymbolAdd.templateId := by decide
    simp only [AdminMessage.struct, hother, if_true, if_false]
    rw [handleAgentShutdown, run_bind, hname, if_pos hascii, run_bind, run_bind, hreason,
      if_pos hascii', received]
    split
    · rfl
    · rfl
  | allAgentsShutdown reason =>
    have hreason : (readChars ArchiveMessages.allAgentsShutdown.layout "reason").run m = reason :=
      run_readChars rfl (hwritten.getattr hwell (by simp [AdminMessage.attributes]) rfl)
    have hascii : isAscii reason = true := hwell.ascii _ (by simp [AdminMessage.texts])
    have hother : ArchiveMessages.allAgentsShutdown.templateId ≠
        ArchiveMessages.newSymbolAdd.templateId ∧ ArchiveMessages.allAgentsShutdown.templateId ≠
          ArchiveMessages.agentShutdown.templateId := by decide
    simp only [AdminMessage.struct, hother.1, hother.2, if_true, if_false]
    rw [handleAllAgentsShutdown, run_bind, hreason, if_pos hascii]
    rfl

/-! ### A run of messages -/

theorem AdminClient.received_symbolMapping (client : AdminClient) (message : AdminMessage)
    (symbolName : List UInt8) : (client.received message).symbolMapping symbolName =
      (message.addedId symbolName).or (client.symbolMapping symbolName) := by
  cases message with
  | newSymbolAdd name symbolId =>
    simp only [received, AdminMessage.addedId, Function.update_apply]
    by_cases hname : symbolName = name
    · rw [if_pos hname, if_pos hname.symm, Option.some_or]
    · rw [if_neg hname, if_neg (Ne.symm hname), Option.none_or]
  | agentShutdown =>
    simp only [received, AdminMessage.addedId, Option.none_or]
    split <;> rfl
  | allAgentsShutdown => rfl

theorem AdminClient.received_agentCalls (client : AdminClient) (message : AdminMessage) :
    (client.received message).agentCalls =
      client.agentCalls ++ (message.shutdownOf client.agentName).toList := by
  cases message with
  | newSymbolAdd => simp [received, AdminMessage.shutdownOf]
  | agentShutdown destAgentName =>
    simp only [received, AdminMessage.shutdownOf]
    by_cases hname : client.agentName = destAgentName
    · rw [if_pos hname, if_pos hname]
      rfl
    · rw [if_neg hname, if_neg hname, Option.toList_none, List.append_nil]
  | allAgentsShutdown => rfl

theorem AdminClient.received_agentName (client : AdminClient) (message : AdminMessage) :
    (client.received message).agentName = client.agentName := by
  cases message with
  | newSymbolAdd => rfl
  | agentShutdown =>
    simp only [received]
    split <;> rfl
  | allAgentsShutdown => rfl

theorem AdminClient.foldl_received_symbolMapping (messages : List AdminMessage)
    (client : AdminClient) (symbolName : List UInt8) :
    (messages.foldl received client).symbolMapping symbolName =
      (messages.filterMap (AdminMessage.addedId symbolName)).getLast?.or
        (client.symbolMapping symbolName) := by
  induction messages generalizing client with
  | nil => rfl
  | cons message messages ih =>
    rw [List.foldl_cons, ih, client.received_symbolMapping, List.filterMap_cons]
    cases message.addedId symbolName with
    | none => rfl
    | some symbolId =>
      rw [List.getLast?_cons]
      cases (messages.filterMap (AdminMessage.addedId symbolName)).getLast? <;> rfl

theorem AdminClient.foldl_received_agentCalls (messages : List AdminMessage)
    (client : AdminClient) : (messages.foldl received client).agentCalls =
      client.agentCalls ++ messages.filterMap (AdminMessage.shutdownOf client.agentName) := by
  induction messages generalizing client with
  | nil => simp
  | cons message messages ih =>
    rw [List.foldl_cons, ih, client.received_agentName, client.received_agentCalls,
      List.append_assoc, List.filterMap_cons]
    cases message.shutdownOf client.agentName <;> rfl

theorem AdminClient.pollAll_eq (client : AdminClient) {messages : List (AdminMessage × Memory)}
    (hmessages : ∀ pair ∈ messages, pair.1.WellFormed ∧ pair.1.WrittenTo pair.2) :
    client.pollAll messages =
      (messages.map fun _ => .returned 0, (messages.map Prod.fst).foldl received client) := by
  induction messages generalizing client with
  | nil => rfl
  | cons pair messages ih =>
    obtain ⟨message, m⟩ := pair
    obtain ⟨hwell, hwritten⟩ := hmessages _ List.mem_cons_self
    have hrest := ih (client.received message) fun pair hpair =>
      hmessages pair (List.mem_cons_of_mem _ hpair)
    simp only [AdminClient.pollAll, client.handle_written hwell hwritten, hrest]
    rfl

/-- **Admin messages reach the agents they are for.** After any run of them a
symbol is mapped to the last id it was added with, and the agent was shut down
once for each shutdown that names it or all, with the reason given. -/
theorem admin_messages_received (client : AdminClient) (messages : List (AdminMessage × Memory))
    (hmessages : ∀ pair ∈ messages, pair.1.WellFormed ∧ pair.1.WrittenTo pair.2) :
    (client.pollAll messages).1 = messages.map (fun _ => .returned 0) ∧
    (∀ symbolName, (client.pollAll messages).2.symbolMapping symbolName =
      (messages.filterMap fun pair => pair.1.addedId symbolName).getLast?.or
        (client.symbolMapping symbolName)) ∧
    (client.pollAll messages).2.agentCalls = client.agentCalls ++
      messages.filterMap fun pair => pair.1.shutdownOf client.agentName := by
  rw [client.pollAll_eq hmessages]
  refine ⟨rfl, fun symbolName => ?_, ?_⟩
  · rw [AdminClient.foldl_received_symbolMapping, List.filterMap_map]
    rfl
  · rw [AdminClient.foldl_received_agentCalls, List.filterMap_map]
    rfl

end

/-- The checks that make a message well formed. -/
theorem AdminMessage.wellFormed_of_all (message : AdminMessage)
    (h : message.attributes.all (fun pair => (message.struct.layout.find? pair.1).all
        fun found => decide (pair.2.Fits found.2)) = true ∧
      (∀ text ∈ message.texts, isAscii text = true) ∧
      ∀ pair ∈ message.attributes, pair.2.NulFree) : message.WellFormed := by
  refine ⟨fun pair hpair offset type hfound => ?_, h.2.1, h.2.2⟩
  have hall := List.all_eq_true.mp h.1 pair hpair
  rw [hfound, Option.all_some] at hall
  exact of_decide_eq_true hall

/-- A symbol is added twice, another agent is shut down and then all are; every
byte of the claimed buffers was set before. -/
theorem admin_messages_received_by_dummy : ∃ messages : List (AdminMessage × Memory),
    messages.map Prod.fst = [.newSymbolAdd [65] 1 0, .agentShutdown [98] [66],
      .newSymbolAdd [65] 2 0, .allAgentsShutdown [67]] ∧
    (newClient.pollAll messages).1 = List.replicate 4 (.returned 0) ∧
    (newClient.pollAll messages).2.symbolMapping [65] = some 2 ∧
    (newClient.pollAll messages).2.agentCalls = [.handleShutdown [67]] := by
  let dirty : Memory := fun _ => 255
  have hmessage : ∀ message ∈ [AdminMessage.newSymbolAdd [65] 1 0, .agentShutdown [98] [66],
      .newSymbolAdd [65] 2 0, .allAgentsShutdown [67]], message.WellFormed ∧
        ∃ m, message.WrittenTo m := by
    intro message hmem
    have hwell : message.WellFormed := by
      refine message.wellFormed_of_all ?_
      simp only [List.mem_cons, List.not_mem_nil, or_false] at hmem
      rcases hmem with rfl | rfl | rfl | rfl <;> decide +kernel
    have hset : (message.struct.layout.setattrs 0 dirty
        (message.struct.assignments message.attributes)).isSome = true := by
      simp only [List.mem_cons, List.not_mem_nil, or_false] at hmem
      rcases hmem with rfl | rfl | rfl | rfl <;> decide +kernel
    obtain ⟨filled, hfilled⟩ := Option.isSome_iff_exists.mp hset
    exact ⟨hwell, filled, dirty, filled, hfilled, fun _ _ _ => rfl⟩
  obtain ⟨hadd, m₁, hm₁⟩ := hmessage (.newSymbolAdd [65] 1 0) (by decide)
  obtain ⟨hshutdown, m₂, hm₂⟩ := hmessage (.agentShutdown [98] [66]) (by decide)
  obtain ⟨hagain, m₃, hm₃⟩ := hmessage (.newSymbolAdd [65] 2 0) (by decide)
  obtain ⟨hall, m₄, hm₄⟩ := hmessage (.allAgentsShutdown [67]) (by decide)
  obtain ⟨hresults, hmapping, hcalls⟩ := admin_messages_received newClient
    [(.newSymbolAdd [65] 1 0, m₁), (.agentShutdown [98] [66], m₂), (.newSymbolAdd [65] 2 0, m₃),
      (.allAgentsShutdown [67], m₄)] (by
        simp only [List.forall_mem_cons, List.not_mem_nil, false_implies, implies_true, and_true]
        exact ⟨⟨hadd, hm₁⟩, ⟨hshutdown, hm₂⟩, ⟨hagain, hm₃⟩, hall, hm₄⟩)
  exact ⟨_, rfl, hresults, hmapping [65], hcalls⟩

end MockExchange
