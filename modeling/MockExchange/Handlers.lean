import MockExchange.Ledger
import MockExchange.Lib.ByteReading
import MockExchange.OrderEntry
import MockExchange.Subscription

/-!
# Handlers of received messages

The three handlers cast the bytes of a message to a structure and read its
fields. `AdminClient` compares the length with that of the header but not with
that of the record the template id stands for, `Ledger::on_fragment` only asks
whether there is a byte at all, and `process_message` asks nothing. What lies
behind a message in the ring is then read as part of it.
-/

namespace MockExchange

open ByteMemory Memory PackedRecord ByteReading

/-- A number of a record that starts at the first byte of the message. -/
def readField (layout : Layout) (name : String) : Reading Nat :=
  match layout.find? name with
  | some (offset, type) => readNumber offset type.size
  | none => .done 0

/-- A `c_char` array of such a record. -/
def readChars (layout : Layout) (name : String) : Reading (List UInt8) :=
  match layout.find? name with
  | some (offset, type) => readText offset type.size
  | none => .done []

/-! ### AdminClient -/

/-- What the handler calls on the agent that owns the client. -/
inductive AgentCall where
  | handleShutdown (reason : List UInt8)
  | handleAdminBytes (size : Nat)
deriving DecidableEq, Repr

/-- The client's `_symbol_mapping`, the name of its agent, and the calls on it. -/
structure AdminClient where
  agentName : List UInt8
  symbolMapping : List UInt8 → Option Nat
  agentCalls : List AgentCall

/-- How a call of the handler ends: with an exception, with a code, or with
whatever the agent returns. -/
inductive AdminResult where
  | raised
  | returned (code : UInt8)
  | agents
deriving DecidableEq, Repr

/-- `decode("ascii")` succeeds. -/
def isAscii (text : List UInt8) : Bool := text.all (· < 128)

namespace AdminClient

open ArchiveMessages

def call (client : AdminClient) (agentCall : AgentCall) : AdminClient :=
  { client with agentCalls := client.agentCalls ++ [agentCall] }

def handleSymbolAdd (client : AdminClient) : Reading (AdminResult × AdminClient) :=
  (readChars newSymbolAdd.layout "symbolName").bind fun symbolName =>
    if isAscii symbolName then
      (readField newSymbolAdd.layout "symbolId").bind fun symbolId =>
        .done (.returned 0, { client with
          symbolMapping := Function.update client.symbolMapping symbolName (some symbolId) })
    else .done (.raised, client)

def handleAgentShutdown (client : AdminClient) : Reading (AdminResult × AdminClient) :=
  (readChars agentShutdown.layout "destAgentName").bind fun agentName =>
    if isAscii agentName then
      (readField agentShutdown.layout "destAgentId").bind fun _ =>
        (readChars agentShutdown.layout "reason").bind fun reason =>
          if isAscii reason then
            if client.agentName = agentName then
              .done (.returned 0, client.call (.handleShutdown reason))
            else .done (.returned 0, client)
          else .done (.raised, client)
    else .done (.raised, client)

def handleAllAgentsShutdown (client : AdminClient) : Reading (AdminResult × AdminClient) :=
  (readChars allAgentsShutdown.layout "reason").bind fun reason =>
    if isAscii reason then .done (.returned 0, client.call (.handleShutdown reason))
    else .done (.raised, client)

/-- `_handle_admin_inputs`, called with a message of `size` bytes. -/
def handleAdminInputs (size : Nat) (client : AdminClient) : Reading (AdminResult × AdminClient) :=
  if size < messageHeader.size then .done (.raised, client)
  else (readField messageHeader "header.templateId").bind fun templateId =>
    if templateId = newSymbolAdd.templateId then client.handleSymbolAdd
    else if templateId = agentShutdown.templateId then client.handleAgentShutdown
    else if templateId = allAgentsShutdown.templateId then client.handleAllAgentsShutdown
    else .done (.agents, client.call (.handleAdminBytes size))

/-- Where the bytes end that the record of the message's template takes, as far
as the handler reads it: a name that is not ASCII ends it. -/
def recordEnd (m : Memory) : Nat :=
  if m.load 2 2 = newSymbolAdd.templateId then
    if isAscii (textAt m 24 8) then 40 else textEnd m 24 8
  else if m.load 2 2 = agentShutdown.templateId then
    if isAscii (textAt m 32 64) then textEnd m 96 32 else textEnd m 32 64
  else if m.load 2 2 = allAgentsShutdown.templateId then textEnd m 24 32
  else messageHeader.size

end AdminClient

/-! ### MpscArchiveMediaDriver -/

/-- `archive::ArchiveMessageHeader`. -/
def archiveMessageHeader : Layout :=
  [⟨"message_type", .unsigned 2⟩, ⟨"message_length", .unsigned 2⟩]

/-- `process_message`, which does nothing for any type of message. -/
def processMessage {σ : Type} (_size : Nat) (driver : σ) : Reading (Unit × σ) :=
  (readField archiveMessageHeader "message_type").bind fun messageType =>
    match messageType with
    | 1 => .done ((), driver)
    | 2 => .done ((), driver)
    | _ => .done ((), driver)

/-! ### Ledger -/

namespace Ledger

open OrderEntry

def processNewOrder (l : Ledger) : Reading Ledger :=
  (readField newOrderSingle.layout "symbolId").bind fun symbolId =>
    match l.products symbolId with
    | none => .done l
    | some _ => .done l

/-- The message is read as far as `process_cancel_order` needs it. -/
def readCancelOrder (l : Ledger) : Reading Ledger :=
  (readField cancelOrder.layout "symbolId").bind fun symbolId =>
    match l.products symbolId with
    | none => .done l
    | some _ => (readField cancelOrder.layout "orderId").bind fun orderId =>
      .done (l.processCancelOrder ⟨orderId, symbolId⟩)

def processReplaceOrder (l : Ledger) : Reading Ledger :=
  (readField replaceOrder.layout "orderId").bind fun orderId =>
    match l.activeOrders orderId with
    | none => .done l
    | some _ => .done l

/-- The header of a fragment of `size` bytes, which tells where it goes. -/
def fragmentTemplate (size : Nat) : Reading (Option Nat) :=
  if size = 0 then .done none
  else (readField messageHeader "templateId").bind fun templateId => .done (some templateId)

def dispatch (l : Ledger) (templateId : Nat) : Reading Ledger :=
  if templateId = newOrderSingle.id then l.processNewOrder
  else if templateId = cancelOrder.id then l.readCancelOrder
  else if templateId = replaceOrder.id then l.processReplaceOrder
  else if templateId = agentStartup.id then .done l
  else .done l

def onFragment (size : Nat) (l : Ledger) : Reading (FragmentAction × Ledger) :=
  (fragmentTemplate size).bind fun templateId =>
    match templateId with
    | none => .done (.continue, l)
    | some templateId => (l.dispatch templateId).bind fun l => .done (.continue, l)

/-- Where the bytes end that a fragment's order takes, as far as it is read. -/
def orderEnd (m : Memory) : Nat :=
  if m.load 2 2 = newOrderSingle.id then 40
  else if m.load 2 2 = cancelOrder.id then 40
  else if m.load 2 2 = replaceOrder.id then 32
  else 4

end Ledger

/-- On a message of `n` bytes the handler looks at none but those, and a message
that is too short for what would be read of it leaves the state unchanged. -/
structure StaysInside {α σ : Type} (handler : Nat → σ → Reading (α × σ)) (takes : Memory → Nat)
    (m : Memory) (n : Nat) (s : σ) : Prop where
  inside : (handler n s).Inside m n
  dropped : n < takes m → ((handler n s).run m).2 = s

section

variable {m : Memory} {n : Nat} {client : AdminClient} {l : Ledger}

/-! ### What is read of a record -/

theorem AdminClient.inside_symbolAdd : client.handleSymbolAdd.Inside m n ↔
    (if isAscii (textAt m 24 8) then 40 else textEnd m 24 8) ≤ n := by
  have hname : readChars ArchiveMessages.newSymbolAdd.layout "symbolName" = readText 24 8 := rfl
  have hid : readField ArchiveMessages.newSymbolAdd.layout "symbolId" = readNumber 32 8 := rfl
  have hend := textEnd_le m 24 8
  rw [handleSymbolAdd, hname, hid, inside_bind, inside_readText (by decide), run_readText]
  split
  · rw [inside_bind, inside_readNumber (by decide)]
    simp only [inside_done, and_true]
    omega
  · simp only [inside_done, and_true]

theorem AdminClient.inside_agentShutdown : client.handleAgentShutdown.Inside m n ↔
    (if isAscii (textAt m 32 64) then textEnd m 96 32 else textEnd m 32 64) ≤ n := by
  have hname : readChars ArchiveMessages.agentShutdown.layout "destAgentName" = readText 32 64 := rfl
  have hid : readField ArchiveMessages.agentShutdown.layout "destAgentId" = readNumber 24 8 := rfl
  have hreason : readChars ArchiveMessages.agentShutdown.layout "reason" = readText 96 32 := rfl
  have hend := textEnd_le m 32 64
  have hlast : 96 < textEnd m 96 32 := lt_textEnd m (by decide)
  have hrest : ∀ reason : List UInt8, (if isAscii reason then
      if client.agentName = textAt m 32 64 then
        Reading.done (AdminResult.returned 0, client.call (.handleShutdown reason))
      else .done (.returned 0, client)
    else .done (.raised, client)).Inside m n := by
    intro reason
    split
    · split <;> trivial
    · trivial
  rw [handleAgentShutdown, hname, hid, hreason, inside_bind, inside_readText (by decide),
    run_readText]
  split
  · rw [inside_bind, inside_readNumber (by decide), inside_bind, inside_readText (by decide)]
    constructor
    · rintro ⟨-, -, hle, -⟩
      exact hle
    · intro hle
      exact ⟨by omega, by omega, hle, hrest _⟩
  · simp only [inside_done, and_true]

theorem AdminClient.inside_allAgentsShutdown : client.handleAllAgentsShutdown.Inside m n ↔
    textEnd m 24 32 ≤ n := by
  have hreason : readChars ArchiveMessages.allAgentsShutdown.layout "reason" = readText 24 32 := rfl
  rw [handleAllAgentsShutdown, hreason, inside_bind, inside_readText (by decide)]
  split
  · simp only [inside_done, and_true]
  · simp only [inside_done, and_true]

/-- Where the length reaches the header, all depends on the record. -/
theorem AdminClient.inside_handleAdminInputs (hheader : 24 ≤ n) :
    (client.handleAdminInputs n).Inside m n ↔ recordEnd m ≤ n := by
  have htemplate : readField ArchiveMessages.messageHeader "header.templateId" = readNumber 2 2 :=
    rfl
  have hsize : ¬ n < ArchiveMessages.messageHeader.size := Nat.not_lt.mpr hheader
  rw [handleAdminInputs, if_neg hsize, htemplate, inside_bind, inside_readNumber (by decide),
    run_readNumber, and_iff_right (by omega : 2 + 2 ≤ n), recordEnd]
  by_cases hadd : m.load 2 2 = ArchiveMessages.newSymbolAdd.templateId
  · rw [if_pos hadd, if_pos hadd]
    exact inside_symbolAdd
  · rw [if_neg hadd, if_neg hadd]
    by_cases hone : m.load 2 2 = ArchiveMessages.agentShutdown.templateId
    · rw [if_pos hone, if_pos hone]
      exact inside_agentShutdown
    · rw [if_neg hone, if_neg hone]
      by_cases hall : m.load 2 2 = ArchiveMessages.allAgentsShutdown.templateId
      · rw [if_pos hall, if_pos hall]
        exact inside_allAgentsShutdown
      · rw [if_neg hall, if_neg hall]
        exact iff_of_true trivial hheader

/-- The assertion on the length raises before anything is read. -/
theorem AdminClient.handleAdminInputs_short (hshort : n < 24) :
    client.handleAdminInputs n = .done (.raised, client) :=
  if_pos hshort

theorem AdminClient.staysInside_iff : StaysInside AdminClient.handleAdminInputs
    AdminClient.recordEnd m n client ↔ n < 24 ∨ recordEnd m ≤ n := by
  rcases Nat.lt_or_ge n 24 with hshort | hheader
  · refine iff_of_true ?_ (Or.inl hshort)
    constructor
    · rw [handleAdminInputs_short hshort]
      trivial
    · intro _
      rw [handleAdminInputs_short hshort]
      rfl
  · constructor
    · intro h
      exact Or.inr ((inside_handleAdminInputs hheader).mp h.inside)
    · rintro (hshort | hle)
      · omega
      · exact ⟨(inside_handleAdminInputs hheader).mpr hle, fun hlt => by omega⟩

theorem processMessage_staysInside_iff {σ : Type} {driver : σ} :
    StaysInside processMessage (fun _ => 2) m n driver ↔ 2 ≤ n := by
  have htype : readField archiveMessageHeader "message_type" = readNumber 0 2 := rfl
  have hinside : (processMessage n driver).Inside m n ↔ 2 ≤ n := by
    rw [processMessage, htype, inside_bind, inside_readNumber (by decide)]
    refine and_iff_left ?_
    split <;> trivial
  constructor
  · intro h
    exact hinside.mp h.inside
  · intro hle
    exact ⟨hinside.mpr hle, fun hlt => by omega⟩

/-! ### What is read of an order -/

theorem Ledger.inside_fragmentTemplate (hpos : 1 ≤ n) :
    (fragmentTemplate n).Inside m n ↔ 4 ≤ n := by
  have htemplate : readField OrderEntry.messageHeader "templateId" = readNumber 2 2 := rfl
  rw [fragmentTemplate, if_neg (by omega), htemplate, inside_bind, inside_readNumber (by decide)]
  exact and_iff_left trivial

theorem Ledger.inside_processNewOrder : l.processNewOrder.Inside m n ↔ 40 ≤ n := by
  have hsymbol : readField OrderEntry.newOrderSingle.layout "symbolId" = readNumber 32 8 := rfl
  rw [processNewOrder, hsymbol, inside_bind, inside_readNumber (by decide)]
  refine and_iff_left ?_
  split <;> trivial

theorem Ledger.inside_readCancelOrder : l.readCancelOrder.Inside m n ↔ 40 ≤ n := by
  have hsymbol : readField OrderEntry.cancelOrder.layout "symbolId" = readNumber 32 8 := rfl
  have horder : readField OrderEntry.cancelOrder.layout "orderId" = readNumber 24 8 := rfl
  rw [readCancelOrder, hsymbol, inside_bind, inside_readNumber (by decide)]
  constructor
  · rintro ⟨hle, -⟩
    exact hle
  · intro hle
    refine ⟨hle, ?_⟩
    split
    · trivial
    · rw [horder, inside_bind, inside_readNumber (by decide)]
      exact ⟨by omega, trivial⟩

theorem Ledger.inside_processReplaceOrder : l.processReplaceOrder.Inside m n ↔ 32 ≤ n := by
  have horder : readField OrderEntry.replaceOrder.layout "orderId" = readNumber 24 8 := rfl
  rw [processReplaceOrder, horder, inside_bind, inside_readNumber (by decide)]
  refine and_iff_left ?_
  split <;> trivial

theorem Ledger.inside_onFragment (hpos : 1 ≤ n) :
    (l.onFragment n).Inside m n ↔ orderEnd m ≤ n := by
  have hrun : (fragmentTemplate n).run m = some (m.load 2 2) := by
    have htemplate : readField OrderEntry.messageHeader "templateId" = readNumber 2 2 := rfl
    rw [fragmentTemplate, if_neg (by omega), htemplate, run_bind, run_readNumber]
    rfl
  rw [onFragment, inside_bind, inside_fragmentTemplate hpos, hrun]
  simp only [inside_bind, inside_done, and_true]
  unfold dispatch orderEnd
  by_cases hnew : m.load 2 2 = OrderEntry.newOrderSingle.id
  · rw [if_pos hnew, if_pos hnew, inside_processNewOrder]
    omega
  · rw [if_neg hnew, if_neg hnew]
    by_cases hcancel : m.load 2 2 = OrderEntry.cancelOrder.id
    · rw [if_pos hcancel, if_pos hcancel, inside_readCancelOrder]
      omega
    · rw [if_neg hcancel, if_neg hcancel]
      by_cases hreplace : m.load 2 2 = OrderEntry.replaceOrder.id
      · rw [if_pos hreplace, if_pos hreplace, inside_processReplaceOrder]
        omega
      · rw [if_neg hreplace, if_neg hreplace]
        refine and_iff_left ?_
        split <;> trivial

theorem Ledger.staysInside_iff (hpos : 1 ≤ n) :
    StaysInside Ledger.onFragment orderEnd m n l ↔ orderEnd m ≤ n := by
  constructor
  · intro h
    exact (inside_onFragment hpos).mp h.inside
  · intro hle
    exact ⟨(inside_onFragment hpos).mpr hle, fun hlt => by omega⟩

end

/-- Whatever the message and the ring behind it hold: `AdminClient` stays inside
exactly if the message is shorter than its header or holds the record as far as
it is read, `process_message` if there are two bytes, the header dispatch of
`on_fragment` if there are four, and `on_fragment` as a whole if the message
holds the order as far as it is read. -/
theorem handlers_stay_inside_iff (m : Memory) (n : Nat) (hpos : 1 ≤ n) :
    (∀ client, StaysInside AdminClient.handleAdminInputs AdminClient.recordEnd m n client ↔
      n < 24 ∨ AdminClient.recordEnd m ≤ n) ∧
    (∀ (σ : Type) (driver : σ), StaysInside processMessage (fun _ => 2) m n driver ↔ 2 ≤ n) ∧
    ((Ledger.fragmentTemplate n).Inside m n ↔ 4 ≤ n) ∧
    ∀ l, StaysInside Ledger.onFragment Ledger.orderEnd m n l ↔
      Ledger.orderEnd m ≤ n := by
  refine ⟨?_, ?_, ?_, ?_⟩
  · intro client
    exact AdminClient.staysInside_iff
  · intro σ driver
    exact processMessage_staysInside_iff
  · exact Ledger.inside_fragmentTemplate hpos
  · intro l
    exact Ledger.staysInside_iff hpos

/-- The header of a `NewSymbolAdd`, and behind it symbol `A` with id 7. -/
def symbolAdd : Memory := fun i =>
  if i = 2 then 100 else if i = 24 then 65 else if i = 32 then 7 else 0

def newClient : AdminClient := ⟨[97], fun _ => none, []⟩

/-- A whole `NewSymbolAdd` is handled inside its 48 bytes. -/
theorem symbolAdd_stays_inside :
    StaysInside AdminClient.handleAdminInputs AdminClient.recordEnd symbolAdd 48 newClient :=
  ((handlers_stay_inside_iff symbolAdd 48 (by decide)).1 newClient).mpr
    (Or.inr (by decide +kernel))

/-- A message that is a header only adds the symbol that lies behind it, and of
a message of one byte two or four are read. -/
theorem handlers_leave_message :
    (¬ StaysInside AdminClient.handleAdminInputs AdminClient.recordEnd symbolAdd 24 newClient ∧
      ((newClient.handleAdminInputs 24).run symbolAdd).2.symbolMapping [65] = some 7) ∧
    ¬ StaysInside processMessage (fun _ => 2) symbolAdd 1 () ∧
    ¬ StaysInside Ledger.onFragment Ledger.orderEnd symbolAdd 1 ⟨fun _ => none, fun _ => none⟩ := by
  refine ⟨⟨?_, ?_⟩, ?_, ?_⟩
  · intro h
    have hread := AdminClient.staysInside_iff.mp h
    revert hread
    decide +kernel
  · decide +kernel
  · intro h
    exact absurd (processMessage_staysInside_iff.mp h) (by decide)
  · intro h
    have hread := (Ledger.staysInside_iff (by decide)).mp h
    revert hread
    decide +kernel

end MockExchange
