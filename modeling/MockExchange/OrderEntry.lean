import MockExchange.ArchiveMessages

/-!
# The order entry schema

The messages of `order_entry.xml`, encoded as the `messageHeader` followed by
the fields in declared order, little-endian and without padding, and compared
with the structures that the Python side maps onto a claimed buffer. The two
definitions are written out by hand, and `reason` is 64 characters long in one
and 32 in the other.
-/

namespace MockExchange

open ByteMemory Memory PackedRecord ArchiveMessages

namespace OrderEntry

/-! ### The schema -/

def side : FieldType := .unsigned 1
def orderType : FieldType := .unsigned 1
def timeInForce : FieldType := .unsigned 1
def price : FieldType := .signed 4
def priceFactor : FieldType := .signed 4
def qty : FieldType := .unsigned 4
def orderId : FieldType := .unsigned 8
def symbolName : FieldType := .chars 8
def symbolId : FieldType := .unsigned 8
def timestamp : FieldType := .unsigned 8
def agentName : FieldType := .chars 64
def reason : FieldType := .chars 64

def messageHeader : Layout :=
  [⟨"blockLength", .unsigned 2⟩, ⟨"templateId", .unsigned 2⟩, ⟨"schemaId", .unsigned 2⟩,
    ⟨"version", .unsigned 2⟩, ⟨"timestamp", .unsigned 8⟩, ⟨"srcAgentId", .unsigned 8⟩]

structure Message where
  id : Nat
  fields : Layout
deriving DecidableEq, Repr

def newOrderSingle : Message where
  id := 1
  fields := [⟨"orderId", orderId⟩, ⟨"symbolId", symbolId⟩, ⟨"side", side⟩, ⟨"orderQty", qty⟩,
    ⟨"ordType", orderType⟩, ⟨"price", price⟩, ⟨"priceFactor", priceFactor⟩,
    ⟨"timeInForce", timeInForce⟩]

def cancelOrder : Message where
  id := 2
  fields := [⟨"orderId", orderId⟩, ⟨"symbolId", symbolId⟩, ⟨"side", side⟩]

def replaceOrder : Message where
  id := 3
  fields := [⟨"orderId", orderId⟩, ⟨"newQty", qty⟩, ⟨"newPrice", price⟩,
    ⟨"newPriceFactor", priceFactor⟩]

def newSymbolAdd : Message where
  id := 100
  fields := [⟨"symbolName", symbolName⟩, ⟨"symbolId", symbolId⟩, ⟨"creationTs", timestamp⟩]

def agentShutdown : Message where
  id := 101
  fields := [⟨"destAgentId", .unsigned 8⟩, ⟨"destAgentName", agentName⟩, ⟨"reason", reason⟩]

def allAgentShutdown : Message where
  id := 102
  fields := [⟨"reason", reason⟩]

def agentStartup : Message where
  id := 103
  fields := [⟨"srcAgentName", agentName⟩]

def agentParams : Message where
  id := 104
  fields := [⟨"agentId", .unsigned 8⟩, ⟨"totalCash", .signed 4⟩, ⟨"totalLossLimit", .signed 4⟩,
    ⟨"totalNotional", .signed 4⟩]

def messages : List Message :=
  [newOrderSingle, cancelOrder, replaceOrder, newSymbolAdd, agentShutdown, allAgentShutdown,
    agentStartup, agentParams]

namespace Message

def layout (msg : Message) : Layout := messageHeader ++ msg.fields

def blockLength (msg : Message) : Nat := msg.fields.size

/-- The header of a message of schema 1, version 1. -/
def headerValues (msg : Message) (timestamp srcAgentId : Int) : List Value :=
  [.number msg.blockLength, .number msg.id, .number (1 : Nat), .number (1 : Nat),
    .number timestamp, .number srcAgentId]

def values (msg : Message) (timestamp srcAgentId : Int) (vs : List Value) : List Value :=
  msg.headerValues timestamp srcAgentId ++ vs

def encode (msg : Message) (timestamp srcAgentId : Int) (vs : List Value) : List UInt8 :=
  msg.layout.encode (msg.values timestamp srcAgentId vs)

end Message

end OrderEntry

/-! ### The same values through the Python side -/

namespace MessageStruct

/-- A body that assigns every field and what `__enter__` leaves of the header. -/
def fieldAssignments (c : MessageStruct) (timestamp srcAgentId : Int) (vs : List Value) :
    List (String × Value) :=
  ("header.timestamp", .number timestamp) :: ("header.srcAgentId", .number srcAgentId) ::
    (c.fields.map Field.name).zip vs

/-- The claimed bytes when the body is through; `none` is an exception. -/
def filledBytes (c : MessageStruct) (m : Memory) (base : Nat) (timestamp srcAgentId : Int)
    (vs : List Value) : Option (List UInt8) :=
  (c.layout.setattrs base (storePyMessageHeader m base c.toMessageClass)
    (c.fieldAssignments timestamp srcAgentId vs)).map fun m => m.bytes base c.layout.size

/-- The claimed bytes are zero wherever a text of the body and its terminator do
not reach. -/
def ZeroBehindTexts (c : MessageStruct) (m : Memory) (base : Nat) (vs : List Value) : Prop :=
  ∀ name offset type, c.layout.find? name = some (offset, type) →
    ∀ v, ((c.fields.map Field.name).zip vs).lookup name = some v →
      v.Clean (m.bytes (base + offset) type.size)

end MessageStruct

/-- Both sides write the same bytes and the same block length for the values,
and either gives all of them back. -/
structure Agree (c : MessageStruct) (msg : OrderEntry.Message) (m : Memory) (base : Nat)
    (timestamp srcAgentId : Int) (vs : List Value) : Prop where
  bytes : c.filledBytes m base timestamp srcAgentId vs = some (msg.encode timestamp srcAgentId vs)
  blockLength : c.layout.size - ArchiveMessages.messageHeader.size = msg.blockLength
  decodedByPython : c.layout.decode (msg.encode timestamp srcAgentId vs) =
    msg.values timestamp srcAgentId vs
  decodedBySbe : msg.layout.decode (msg.encode timestamp srcAgentId vs) =
    msg.values timestamp srcAgentId vs

/-- Values that the fields of a message can have. -/
structure Assignable (msg : OrderEntry.Message) (timestamp srcAgentId : Int) (vs : List Value) :
    Prop where
  timestamp : (Value.number timestamp).Fits (.unsigned 8)
  srcAgentId : (Value.number srcAgentId).Fits (.unsigned 8)
  fields : msg.fields.Fit vs

section

variable {c : MessageStruct} {msg : OrderEntry.Message} {m m' : Memory} {base : Nat}
  {timestamp srcAgentId : Int} {vs : List Value}

/-- Every message of the schema has its structure. Two of them differ in length,
the others have the same fields but for their names. -/
theorem exists_struct : ∀ msg ∈ OrderEntry.messages, ∃ c ∈ structs, struct? msg.id = some c ∧
    c.templateId = msg.id ∧ msg.blockLength < 256 ^ 2 ∧ msg.id < 256 ^ 2 ∧
      if msg = OrderEntry.agentShutdown ∨ msg = OrderEntry.allAgentShutdown then
        c.layout.size ≠ msg.layout.size
      else c.layout.map Field.type = msg.layout.map Field.type := by
  decide +kernel

/-- A message and the structure of its template id. -/
structure Shared (c : MessageStruct) (msg : OrderEntry.Message) : Prop where
  wellFormed : c ∈ structs
  templateId : c.templateId = msg.id
  blockLength_lt : msg.blockLength < 256 ^ 2
  id_lt : msg.id < 256 ^ 2

theorem Shared.values_fit (h : Shared c msg) (hvalues : Assignable msg timestamp srcAgentId vs) :
    msg.layout.Fit (msg.values timestamp srcAgentId vs) := by
  have hnumber : ∀ n, n < 256 ^ 2 → (Value.number (n : Nat)).Fits (.unsigned 2) := by
    intro n hn
    constructor
    · exact Int.natCast_nonneg n
    · exact_mod_cast hn
  have hone := hnumber 1 (by decide)
  refine .cons (hnumber _ h.blockLength_lt) (.cons (hnumber _ h.id_lt) (.cons hone (.cons hone
    (.cons ?_ (.cons ?_ hvalues.fields)))))
  · exact hvalues.timestamp
  · exact hvalues.srcAgentId

theorem values_nulFree (hfree : ∀ v ∈ vs, v.NulFree) :
    ∀ v ∈ msg.values timestamp srcAgentId vs, v.NulFree := by
  intro v hv
  rcases List.mem_append.mp hv with hheader | hfield
  · simp only [OrderEntry.Message.headerValues, List.mem_cons, List.not_mem_nil, or_false] at hheader
    rcases hheader with rfl | rfl | rfl | rfl | rfl | rfl <;> trivial
  · exact hfree v hfield

/-! ### Messages of the same layout -/

theorem mem_of_lookup {l : List (String × Value)} {name : String} {v : Value}
    (h : l.lookup name = some v) : (name, v) ∈ l := by
  obtain ⟨before, after, rfl, -⟩ := List.lookup_eq_some_iff.mp h
  exact List.mem_append_right _ List.mem_cons_self

theorem blockLength_eq (htypes : c.layout.map Field.type = msg.layout.map Field.type) :
    c.layout.size - ArchiveMessages.messageHeader.size = msg.blockLength := by
  have hsize : msg.layout.size = ArchiveMessages.messageHeader.size + msg.blockLength := by
    rw [OrderEntry.Message.layout, Layout.size, List.map_append, List.sum_append]
    rfl
  rw [Layout.size_congr htypes, hsize, Nat.add_sub_cancel_left]

/-- The header part of the assignments, and the fields. -/
theorem assignments_eq (c : MessageStruct) (timestamp srcAgentId : Int) (vs : List Value) :
    c.assignments (c.fieldAssignments timestamp srcAgentId vs) =
      (c.headerAssignments ++ [("header.timestamp", .number timestamp),
        ("header.srcAgentId", .number srcAgentId)]) ++ (c.fields.map Field.name).zip vs := by
  rw [MessageStruct.assignments, MessageStruct.fieldAssignments, List.append_assoc]
  rfl

/-- Where the layouts agree, the with-block assigns the message's values. -/
theorem Shared.assigns (h : Shared c msg)
    (htypes : c.layout.map Field.type = msg.layout.map Field.type)
    (hvalues : Assignable msg timestamp srcAgentId vs) :
    c.layout.Assigns (c.assignments (c.fieldAssignments timestamp srcAgentId vs))
      (msg.values timestamp srcAgentId vs) := by
  have hfit := (Layout.fit_congr htypes).mpr (h.values_fit hvalues)
  constructor
  · exact (structs_wellFormed.2 c h.wellFormed).1
  · exact hfit
  · have hheader : (c.layout.map Field.name).zip (msg.values timestamp srcAgentId vs) =
        ("header.blockLength", .number msg.blockLength) ::
          ([("header.templateId", .number msg.id), ("header.schemaId", .number (1 : Nat)),
            ("header.version", .number (1 : Nat))] ++
          ([("header.timestamp", .number timestamp), ("header.srcAgentId", .number srcAgentId)] ++
            (c.fields.map Field.name).zip vs)) := rfl
    have hmiddle : ∀ (a b : List (String × Value)) (x : String × Value),
        (a ++ x :: b).Perm (x :: (a ++ b)) := fun _ _ _ => List.perm_middle
    rw [hheader, assignments_eq, MessageStruct.headerAssignments, h.templateId,
      blockLength_eq htypes]
    exact hmiddle [_, _, _] _ _

theorem zeroBehindTexts_iff
    (hassigns : c.layout.Assigns (c.assignments (c.fieldAssignments timestamp srcAgentId vs))
      (msg.values timestamp srcAgentId vs)) :
    (∀ name offset type, c.layout.find? name = some (offset, type) →
        ∀ v, (c.assignments (c.fieldAssignments timestamp srcAgentId vs)).lookup name = some v →
          v.Clean (m.bytes (base + offset) type.size)) ↔ c.ZeroBehindTexts m base vs := by
  have hnodup := hassigns.nodup
  rw [assignments_eq] at hnodup ⊢
  rw [List.map_append, List.nodup_append] at hnodup
  obtain ⟨-, hfields, -⟩ := hnodup
  constructor
  · intro hall name offset type hfound v hlookup
    refine hall name offset type hfound v ?_
    rw [← assignments_eq]
    refine Layout.lookup_of_mem hassigns.nodup ?_
    rw [assignments_eq]
    exact List.mem_append_right _ (mem_of_lookup hlookup)
  · intro hall name offset type hfound v hlookup
    rcases List.mem_append.mp (mem_of_lookup hlookup) with hheader | hfield
    · simp only [MessageStruct.headerAssignments, List.cons_append, List.nil_append,
        List.mem_cons, Prod.mk.injEq, List.not_mem_nil, or_false] at hheader
      rcases hheader with ⟨-, rfl⟩ | ⟨-, rfl⟩ | ⟨-, rfl⟩ | ⟨-, rfl⟩ | ⟨-, rfl⟩ | ⟨-, rfl⟩ <;> trivial
    · exact hall name offset type hfound v (Layout.lookup_of_mem hfields hfield)

/-- Where the layouts agree, so do the two sides, if no text has a terminator in
it and the claimed bytes were zero behind the texts. -/
theorem Shared.agree_iff (h : Shared c msg)
    (htypes : c.layout.map Field.type = msg.layout.map Field.type)
    (hvalues : Assignable msg timestamp srcAgentId vs) :
    Agree c msg m base timestamp srcAgentId vs ↔
      (∀ v ∈ vs, v.NulFree) ∧ c.ZeroBehindTexts m base vs := by
  have hassigns := h.assigns htypes hvalues
  have hfit := h.values_fit hvalues
  have hencode : c.layout.encode (msg.values timestamp srcAgentId vs) =
      msg.encode timestamp srcAgentId vs := Layout.encode_congr htypes _
  constructor
  · intro hagree
    have hfree : ∀ v ∈ vs, v.NulFree := by
      intro v hv
      have hall := Layout.decode_nulFree msg.layout (msg.encode timestamp srcAgentId vs)
      rw [hagree.decodedBySbe] at hall
      exact hall v (List.mem_append_right _ hv)
    refine ⟨hfree, ?_⟩
    have hbytes := hagree.bytes
    rw [MessageStruct.filledBytes, setattrs_after_enter] at hbytes
    obtain ⟨m', hset, heq⟩ := Option.map_eq_some_iff.mp hbytes
    rw [← hencode] at heq
    exact (zeroBehindTexts_iff hassigns).mp
      ((hassigns.bytes_eq_encode_iff (values_nulFree hfree) hset).mp heq)
  · rintro ⟨hfree, hzero⟩
    have hall : ∀ v ∈ msg.values timestamp srcAgentId vs, v.NulFree := values_nulFree hfree
    have hdecode : msg.layout.decode (msg.encode timestamp srcAgentId vs) =
        msg.values timestamp srcAgentId vs := Layout.decode_encode hfit hall
    constructor
    · have hexists : ∃ m', c.layout.setattrs base m
          (c.assignments (c.fieldAssignments timestamp srcAgentId vs)) = some m' :=
        hassigns.exists_setattrs hall m
      obtain ⟨m', hset⟩ := hexists
      have heq := (hassigns.bytes_eq_encode_iff hall hset).mpr
        ((zeroBehindTexts_iff hassigns).mpr hzero)
      rw [MessageStruct.filledBytes, setattrs_after_enter, hset, Option.map_some, heq, hencode]
    · exact blockLength_eq htypes
    · rw [Layout.decode_congr htypes, hdecode]
    · exact hdecode

/-! ### Messages of different lengths -/

theorem Shared.not_agree (h : Shared c msg) (hsizes : c.layout.size ≠ msg.layout.size)
    (hvalues : Assignable msg timestamp srcAgentId vs) :
    ¬ Agree c msg m base timestamp srcAgentId vs := by
  intro hagree
  obtain ⟨m', -, heq⟩ := Option.map_eq_some_iff.mp hagree.bytes
  have hlength := congrArg List.length heq
  rw [length_bytes, OrderEntry.Message.encode,
    Layout.length_encode (h.values_fit hvalues)] at hlength
  exact hsizes hlength

end

/-- For every message of the schema and all values of its fields, the Python
side and the schema agree exactly if the message is none of the two shutdowns,
no text has a terminator in it, and the claimed bytes were zero behind the
texts. -/
theorem wire_agreement : ∀ msg ∈ OrderEntry.messages, ∃ c, struct? msg.id = some c ∧
    ∀ (m : Memory) (base : Nat) (timestamp srcAgentId : Int) (vs : List Value),
      Assignable msg timestamp srcAgentId vs →
        (Agree c msg m base timestamp srcAgentId vs ↔
          (msg ≠ OrderEntry.agentShutdown ∧ msg ≠ OrderEntry.allAgentShutdown) ∧
            (∀ v ∈ vs, v.NulFree) ∧ c.ZeroBehindTexts m base vs) := by
  intro msg hmsg
  obtain ⟨c, hc, hstruct, htemplate, hblock, hid, hlayouts⟩ := exists_struct msg hmsg
  have h : Shared c msg := ⟨hc, htemplate, hblock, hid⟩
  refine ⟨c, hstruct, ?_⟩
  intro m base timestamp srcAgentId vs hvalues
  split at hlayouts
  · rename_i hshutdown
    refine iff_of_false (h.not_agree hlayouts hvalues) ?_
    rintro ⟨⟨hone, hall⟩, -⟩
    exact hshutdown.elim hone hall
  · rename_i hother
    rw [not_or] at hother
    rw [h.agree_iff hlayouts hvalues]
    constructor
    · intro hclean
      exact ⟨hother, hclean⟩
    · rintro ⟨-, hclean⟩
      exact hclean

theorem zeroBehindTexts_zeroed (c : MessageStruct) (base : Nat) (vs : List Value) :
    c.ZeroBehindTexts (fun _ => 0) base vs := by
  intro name offset type _ v _
  have hzero : Memory.bytes (fun _ => 0) (base + offset) type.size = List.replicate type.size 0 :=
    bytes_eq_replicate fun _ _ _ => rfl
  rw [hzero]
  exact FieldType.clean_zero v _

/-- `AAPL` is added as symbol 7. -/
theorem symbol_add_agrees : ∃ c, struct? OrderEntry.newSymbolAdd.id = some c ∧
    Agree c OrderEntry.newSymbolAdd (fun _ => 0) 0 0 0
      [.text [65, 65, 80, 76], .number 7, .number 1700000000] := by
  obtain ⟨c, hc, hall⟩ := wire_agreement OrderEntry.newSymbolAdd (by decide)
  refine ⟨c, hc, (hall _ _ _ _ _ ?_).mpr ⟨?_, ?_, zeroBehindTexts_zeroed _ _ _⟩⟩
  · constructor
    · decide
    · decide
    · refine .cons ?_ (.cons ?_ (.cons ?_ .nil)) <;> decide
  · decide
  · decide

/-- A shutdown with the reason `eod` is 128 bytes long on one side and 160 on
the other, and a reason of 33 characters raises an exception on one side only. -/
theorem shutdown_disagrees :
    (∃ c, struct? OrderEntry.agentShutdown.id = some c ∧
      (c.filledBytes (fun _ => 0) 0 0 9 [.number 4, .text [97], .text [101, 111, 100]]).map
        List.length = some 128 ∧
      (OrderEntry.agentShutdown.encode 0 9 [.number 4, .text [97], .text [101, 111, 100]]).length =
        160 ∧
      ¬ Agree c OrderEntry.agentShutdown (fun _ => 0) 0 0 9
        [.number 4, .text [97], .text [101, 111, 100]]) ∧
    ∃ c, struct? OrderEntry.allAgentShutdown.id = some c ∧
      Assignable OrderEntry.allAgentShutdown 0 9 [.text (List.replicate 33 97)] ∧
      c.filledBytes (fun _ => 0) 0 0 9 [.text (List.replicate 33 97)] = none := by
  constructor
  · refine ⟨ArchiveMessages.agentShutdown, rfl, by decide +kernel, by decide +kernel, ?_⟩
    intro hagree
    have hlength : (ArchiveMessages.agentShutdown.filledBytes (fun _ => 0) 0 0 9
        [.number 4, .text [97], .text [101, 111, 100]]).map List.length ≠
        some (OrderEntry.agentShutdown.encode 0 9
          [.number 4, .text [97], .text [101, 111, 100]]).length := by
      decide +kernel
    exact hlength (congrArg (Option.map List.length) hagree.bytes)
  · refine ⟨ArchiveMessages.allAgentsShutdown, rfl, ?_, ?_⟩
    · constructor
      · decide
      · decide
      · exact .cons (by decide) .nil
    · rfl

end MockExchange
