import MockExchange.Lib.RecordFields
import MockExchange.Publication

/-!
# The message structures of the Python side

Every message is a `ctypes.Structure` packed without padding, and starts with a
`MessageHeader`. The attributes of the header are named with their path here.
`ClaimedBuffer` maps such a structure onto the bytes it has claimed, and the
body of the with-block assigns to its attributes.
-/

namespace MockExchange

open ByteMemory Memory PackedRecord

/-- A message structure: its `TEMPLATE_ID`, and its `_fields_` after the header. -/
structure MessageStruct where
  templateId : Nat
  fields : Layout
deriving DecidableEq, Repr

namespace ArchiveMessages

def messageHeader : Layout :=
  [⟨"header.blockLength", .unsigned 2⟩, ⟨"header.templateId", .unsigned 2⟩,
    ⟨"header.schemaId", .unsigned 2⟩, ⟨"header.version", .unsigned 2⟩,
    ⟨"header.timestamp", .unsigned 8⟩, ⟨"header.srcAgentId", .unsigned 8⟩]

def newOrderSingle : MessageStruct where
  templateId := 1
  fields := [⟨"orderId", .unsigned 8⟩, ⟨"symbolId", .unsigned 8⟩, ⟨"side", .unsigned 1⟩,
    ⟨"orderQty", .unsigned 4⟩, ⟨"ordType", .unsigned 1⟩, ⟨"price", .signed 4⟩,
    ⟨"priceFactor", .signed 4⟩, ⟨"timeInForce", .unsigned 1⟩]

def cancelOrder : MessageStruct where
  templateId := 2
  fields := [⟨"orderId", .unsigned 8⟩, ⟨"symbolId", .unsigned 8⟩, ⟨"side", .unsigned 1⟩]

def replaceOrder : MessageStruct where
  templateId := 3
  fields := [⟨"orderId", .unsigned 8⟩, ⟨"newQty", .unsigned 4⟩, ⟨"newPrice", .signed 4⟩,
    ⟨"newPriceFactor", .signed 4⟩]

def newSymbolAdd : MessageStruct where
  templateId := 100
  fields := [⟨"symbolName", .chars 8⟩, ⟨"symbolId", .unsigned 8⟩,
    ⟨"createTimeEpochNs", .unsigned 8⟩]

def agentShutdown : MessageStruct where
  templateId := 101
  fields := [⟨"destAgentId", .unsigned 8⟩, ⟨"destAgentName", .chars 64⟩, ⟨"reason", .chars 32⟩]

def allAgentsShutdown : MessageStruct where
  templateId := 102
  fields := [⟨"reason", .chars 32⟩]

def agentStartup : MessageStruct where
  templateId := 103
  fields := [⟨"srcAgentName", .chars 64⟩]

def agentParams : MessageStruct where
  templateId := 104
  fields := [⟨"agentId", .unsigned 8⟩, ⟨"total_cash", .signed 4⟩, ⟨"total_loss_limit", .signed 4⟩,
    ⟨"total_notional", .signed 4⟩]

def marketData : MessageStruct where
  templateId := 4
  fields := [⟨"orderId", .unsigned 8⟩, ⟨"newQty", .unsigned 4⟩, ⟨"newPrice", .signed 4⟩,
    ⟨"newPriceFactor", .signed 4⟩]

def marketDataCtrlRequest : MessageStruct where
  templateId := 5
  fields := [⟨"agentName", .chars 32⟩, ⟨"symbolName", .chars 8⟩, ⟨"endTime", .unsigned 8⟩]

def marketDataCtrlResponse : MessageStruct where
  templateId := 6
  fields := [⟨"symbolName", .chars 8⟩, ⟨"symbolId", .unsigned 8⟩, ⟨"endTime", .unsigned 8⟩]

def structs : List MessageStruct :=
  [newOrderSingle, cancelOrder, replaceOrder, newSymbolAdd, agentShutdown, allAgentsShutdown,
    agentStartup, agentParams, marketData, marketDataCtrlRequest, marketDataCtrlResponse]

/-- The structure of a template id. -/
def struct? (templateId : Nat) : Option MessageStruct :=
  structs.find? (·.templateId = templateId)

end ArchiveMessages

open ArchiveMessages

namespace MessageStruct

/-- All fields, the header's first. -/
def layout (c : MessageStruct) : Layout := messageHeader ++ c.fields

def toMessageClass (c : MessageStruct) : MessageClass := ⟨c.layout.size, c.templateId⟩

/-- The assignments `__enter__` makes. -/
def headerAssignments (c : MessageStruct) : List (String × Value) :=
  [("header.templateId", .number c.templateId), ("header.schemaId", .number (1 : Nat)),
    ("header.version", .number (1 : Nat)),
    ("header.blockLength", .number (c.layout.size - messageHeader.size : Nat))]

/-- The assignments of the whole with-block. -/
def assignments (c : MessageStruct) (body : List (String × Value)) : List (String × Value) :=
  c.headerAssignments ++ body

end MessageStruct

section

variable {c : MessageStruct} {base : Nat} {m m' : Memory} {body : List (String × Value)}

/-! ### The layouts -/

theorem sizeofPyMessageHeader_eq : messageHeader.size = sizeofPyMessageHeader := rfl

/-- Template ids are given once, names within a structure as well, and all
sizes fit in the header's `blockLength`. -/
theorem structs_wellFormed : (structs.map MessageStruct.templateId).Nodup ∧
    ∀ c ∈ structs, (c.layout.map Field.name).Nodup ∧ c.templateId < 256 ^ 2 ∧
      c.layout.size < 256 ^ 2 := by
  decide +kernel

/-! ### What `__enter__` stores -/

/-- An assignment of a natural number to a field of the header. -/
theorem setattr_header {name : String} {offset width : Nat}
    (h : c.layout.find? name = some (offset, .unsigned width)) (m : Memory) (base value : Nat) :
    c.layout.setattr base m name (.number value) = some (m.store (base + offset) width value) := by
  simp only [Layout.setattr, h, FieldType.assigned, Option.map_some, leBytes_twosComplement]
  rfl

/-- The header that `__enter__` stores is that of the structure's layout. -/
theorem storePyMessageHeader_eq (c : MessageStruct) (m : Memory) (base : Nat) :
    c.layout.setattrs base m c.headerAssignments =
      some (storePyMessageHeader m base c.toMessageClass) := by
  have hblock : c.layout.find? "header.blockLength" = some (0, .unsigned 2) := rfl
  have htemplate : c.layout.find? "header.templateId" = some (2, .unsigned 2) := rfl
  have hschema : c.layout.find? "header.schemaId" = some (4, .unsigned 2) := rfl
  have hversion : c.layout.find? "header.version" = some (6, .unsigned 2) := rfl
  simp only [MessageStruct.headerAssignments, Layout.setattrs]
  rw [setattr_header htemplate, Option.bind_some, setattr_header hschema, Option.bind_some,
    setattr_header hversion, Option.bind_some, setattr_header hblock, Option.bind_some]
  rfl

/-- The with-block as one row of assignments to the claimed bytes. -/
theorem setattrs_after_enter (c : MessageStruct) (m : Memory) (base : Nat)
    (body : List (String × Value)) :
    c.layout.setattrs base (storePyMessageHeader m base c.toMessageClass) body =
      c.layout.setattrs base m (c.assignments body) := by
  rw [MessageStruct.assignments, Layout.setattrs_append, storePyMessageHeader_eq, Option.bind_some]

end

end MockExchange
