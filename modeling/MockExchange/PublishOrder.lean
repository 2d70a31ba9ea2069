import MockExchange.ArchiveMessages

/-!
# Publishing an order

`AlpacaAgent.publish_order` claims a message for the action of a request and
assigns the same six attributes whatever the action is. A replacement is
claimed as a `CancelOrder` and a cancellation as a `ReplaceOrder`, and these
two structures lack most of the six names; `symbol` is a field of none.
-/

namespace MockExchange

open ByteMemory Memory PackedRecord ArchiveMessages

inductive OrderAction where
  | new
  | replace
  | cancel
deriving DecidableEq, Repr

inductive OrderSide where
  | buy
  | sell
deriving DecidableEq, Repr

def OrderSide.toInt : OrderSide → Int
  | buy => 1
  | sell => 2

structure OrderRequest where
  action : OrderAction
  symbol : String
  quantity : Int
  price : Int
  priceFactor : Int
  clientOrderId : Int
  side : OrderSide
deriving DecidableEq, Repr

namespace OrderRequest

/-- What the body of each with-block assigns. -/
def attributes (signal : OrderRequest) : List (String × Value) :=
  [("orderId", .number signal.clientOrderId), ("symbol", .text signal.symbol.toUTF8.toList),
    ("side", .number signal.side.toInt), ("orderQty", .number signal.quantity),
    ("price", .number signal.price), ("priceFactor", .number signal.priceFactor)]

/-- The numbers are within the widths the messages have for them. -/
structure InRange (signal : OrderRequest) : Prop where
  clientOrderId : (Value.number signal.clientOrderId).Fits (.unsigned 8)
  quantity : (Value.number signal.quantity).Fits (.unsigned 4)
  price : (Value.number signal.price).Fits (.signed 4)
  priceFactor : (Value.number signal.priceFactor).Fits (.signed 4)

end OrderRequest

/-- The structure `publish_order` claims for an action. -/
def OrderAction.claimed : OrderAction → MessageStruct
  | new => newOrderSingle
  | replace => cancelOrder
  | cancel => replaceOrder

namespace Session

/-- The body of the innermost with-block; `none` is an exception. -/
def setattrs (s : Session) (c : MessageStruct) (wrapper : WriterWrapper)
    (body : List (String × Value)) : Option Session :=
  (c.layout.setattrs wrapper.payload s.pub.mem body).map s.withMem

/-- The wrapper that the next claim returns. -/
def nextWrapper (s : Session) (hdr : Nat) (c : MessageStruct) : WriterWrapper :=
  (s.pub.claimBuffer hdr c.layout.size).1

/-- One branch of `publish_order`, when the queue hands out the block at `hdr`. -/
def publishAs (c : MessageStruct) (s : Session) (hdr : Nat) (signal : OrderRequest) :
    Option Session :=
  let wrapper := s.nextWrapper hdr c
  ((s.enter hdr c.toMessageClass).setattrs c wrapper signal.attributes).map fun filled =>
    filled.exit wrapper s.running false

/-- `publish_order`: what it returns and leaves behind. -/
def publishOrder (s : Session) (hdr : Nat) : Option OrderRequest → Option (Bool × Session)
  | none => some (false, s)
  | some signal => match signal.action with
    | .new => (s.publishAs newOrderSingle hdr signal).map (true, ·)
    | .replace => (s.publishAs cancelOrder hdr signal).map (true, ·)
    | .cancel => (s.publishAs replaceOrder hdr signal).map (true, ·)

end Session

/-- The message an action should be published as. -/
def OrderAction.message : OrderAction → MessageStruct
  | new => newOrderSingle
  | replace => replaceOrder
  | cancel => cancelOrder

/-- The fields of that message that carry the request. -/
def OrderRequest.fields (signal : OrderRequest) : List (String × Value) :=
  match signal.action with
  | .new => [("orderId", .number signal.clientOrderId), ("side", .number signal.side.toInt),
      ("orderQty", .number signal.quantity), ("price", .number signal.price),
      ("priceFactor", .number signal.priceFactor)]
  | .replace => [("orderId", .number signal.clientOrderId), ("newQty", .number signal.quantity),
      ("newPrice", .number signal.price), ("newPriceFactor", .number signal.priceFactor)]
  | .cancel => [("orderId", .number signal.clientOrderId), ("side", .number signal.side.toInt)]

/-- From `s` to `t` exactly one message is committed, the one in the block at
`hdr`, and it is the message of the request. -/
structure Survives (s t : Session) (hdr : Nat) (signal : OrderRequest) : Prop where
  committed : ∃ w, w.buffer = hdr ∧ t.pub.committed = s.pub.committed ++ [w]
  ready : MessageHeader.commitFlag t.pub.mem hdr = CommitFlag.readyForConsumer.toByte
  templateId : messageHeader.getattr (hdr + sizeofMessageHeader) t.pub.mem "header.templateId" =
    some (.number signal.action.message.templateId)
  fields : ∀ pair ∈ signal.fields,
    signal.action.message.layout.getattr (hdr + sizeofMessageHeader) t.pub.mem pair.1 =
      some pair.2

/-- The bytes that the with-block of a request leaves in the claimed buffer. -/
def messageBytes (m : Memory) (base : Nat) (signal : OrderRequest) : Option (List UInt8) :=
  let c := signal.action.claimed
  (c.layout.setattrs base (storePyMessageHeader m base c.toMessageClass) signal.attributes).map
    fun m => m.bytes base c.layout.size

/-- Two requests differ in what reaches the wire. -/
def DiffersOnWire (signal other : OrderRequest) : Prop :=
  signal.action ≠ other.action ∨ signal.clientOrderId ≠ other.clientOrderId ∨
    signal.action = .new ∧ (signal.side ≠ other.side ∨ signal.quantity ≠ other.quantity ∨
      signal.price ≠ other.price ∨ signal.priceFactor ≠ other.priceFactor)

section

variable {s t : Session} {hdr : Nat} {signal other : OrderRequest} {c : MessageStruct}
  {m m' : Memory} {base : Nat}

/-! ### The with-block -/

theorem claimed_mem_structs (action : OrderAction) : action.claimed ∈ structs := by
  cases action <;> decide

theorem assignments_nodup (c : MessageStruct) (signal : OrderRequest) :
    ((c.assignments signal.attributes).map Prod.fst).Nodup := by
  change ["header.templateId", "header.schemaId", "header.version", "header.blockLength",
    "orderId", "symbol", "side", "orderQty", "price", "priceFactor"].Nodup
  decide +kernel

theorem OrderSide.toInt_fits (side : OrderSide) : (Value.number side.toInt).Fits (.unsigned 1) := by
  cases side <;> decide

theorem publishOrder_some (s : Session) (hdr : Nat) (signal : OrderRequest) :
    s.publishOrder hdr (some signal) =
      (s.publishAs signal.action.claimed hdr signal).map (true, ·) := by
  cases haction : signal.action with
  | new => simp only [Session.publishOrder, haction, OrderAction.claimed]
  | replace => simp only [Session.publishOrder, haction, OrderAction.claimed]
  | cancel => simp only [Session.publishOrder, haction, OrderAction.claimed]

/-- The message of a with-block is filled in as one row of assignments. -/
theorem exists_filled (action : OrderAction) (signal : OrderRequest) (m : Memory) (base : Nat) :
    ∃ m', action.claimed.layout.setattrs base m (action.claimed.assignments signal.attributes) =
      some m' := by
  apply Option.isSome_iff_exists.mp
  cases action <;> rfl

theorem publishAs_eq {filled : Memory} (h : c.layout.setattrs (hdr + sizeofMessageHeader) s.pub.mem
      (c.assignments signal.attributes) = some filled) :
    s.publishAs c hdr signal = some (((s.enter hdr c.toMessageClass).withMem filled).exit
      (s.nextWrapper hdr c) s.running false) := by
  rw [← setattrs_after_enter] at h
  have hbody : (s.enter hdr c.toMessageClass).setattrs c (s.nextWrapper hdr c) signal.attributes =
      some ((s.enter hdr c.toMessageClass).withMem filled) := by
    have hmap := congrArg (Option.map (s.enter hdr c.toMessageClass).withMem) h
    exact hmap
  simp only [Session.publishAs, hbody, Option.map_some]

/-- What `publish_order` commits and leaves in memory. -/
theorem publishOrder_filled (s : Session) (hdr : Nat) (signal : OrderRequest) :
    ∃ t filled w, s.publishOrder hdr (some signal) = some (true, t) ∧ w.buffer = hdr ∧
      signal.action.claimed.layout.setattrs (hdr + sizeofMessageHeader) s.pub.mem
        (signal.action.claimed.assignments signal.attributes) = some filled ∧
      t.pub.committed = s.pub.committed ++ (s.pub.toCommit ++ [w]) ∧
      t.pub.mem = (s.pub.toCommit ++ [w]).foldl WriterWrapper.commit filled := by
  obtain ⟨filled, hfilled⟩ := exists_filled signal.action signal s.pub.mem
    (hdr + sizeofMessageHeader)
  refine ⟨((s.enter hdr signal.action.claimed.toMessageClass).withMem filled).exit
      (s.nextWrapper hdr signal.action.claimed) s.running false, filled,
    s.nextWrapper hdr signal.action.claimed, ?_, rfl, hfilled, rfl, rfl⟩
  rw [publishOrder_some, publishAs_eq hfilled, Option.map_some]

/-- Where no claim waits, the message that is committed is the one filled in. -/
theorem publishOrder_sameOn {t : Session} (hnone : s.pub.toCommit = [])
    (hpublish : s.publishOrder hdr (some signal) = some (true, t)) :
    ∃ filled, signal.action.claimed.layout.setattrs (hdr + sizeofMessageHeader) s.pub.mem
        (signal.action.claimed.assignments signal.attributes) = some filled ∧
      (∃ w, w.buffer = hdr ∧ t.pub.committed = s.pub.committed ++ [w]) ∧
      ∀ size, SameOn filled t.pub.mem (hdr + sizeofMessageHeader) size := by
  obtain ⟨t', filled, w, hpublish', hw, hfilled, hcommitted, hmem⟩ :=
    publishOrder_filled s hdr signal
  have ht : t' = t := by
    have hsame := hpublish'.symm.trans hpublish
    exact (Prod.mk.inj (Option.some.inj hsame)).2
  subst ht
  rw [hnone] at hcommitted hmem
  refine ⟨filled, hfilled, ⟨w, hw, hcommitted⟩, ?_⟩
  intro size
  have hflag := MessageHeader.setCommitFlag_sameOutside filled hdr .readyForConsumer
  have hsame : t'.pub.mem = MessageHeader.setCommitFlag filled hdr .readyForConsumer := by
    rw [← hw]
    exact hmem
  rw [hsame]
  exact hflag.sameOn (Or.inr (Nat.le_refl _))

theorem publishOrder_committed (hpublish : s.publishOrder hdr (some signal) = some (true, t)) :
    t.pub.committed.length = s.pub.committed.length + s.pub.toCommit.length + 1 := by
  obtain ⟨t', -, w, hpublish', -, -, hcommitted, -⟩ := publishOrder_filled s hdr signal
  have hsame := hpublish'.symm.trans hpublish
  obtain ⟨-, rfl⟩ := Prod.mk.inj (Option.some.inj hsame)
  rw [hcommitted, List.length_append, List.length_append, List.length_singleton, Nat.add_assoc]

/-- The block of the message is ready, whatever was committed with it. -/
theorem publishOrder_ready (hpublish : s.publishOrder hdr (some signal) = some (true, t)) :
    MessageHeader.commitFlag t.pub.mem hdr = CommitFlag.readyForConsumer.toByte := by
  obtain ⟨t', filled, w, hpublish', hw, -, -, hmem⟩ := publishOrder_filled s hdr signal
  have hsame := hpublish'.symm.trans hpublish
  obtain ⟨-, rfl⟩ := Prod.mk.inj (Option.some.inj hsame)
  have hflag := Publication.commit_commitFlag ⟨filled, s.pub.toCommit ++ [w], 0, []⟩ hdr
  rw [if_pos ⟨w, by simp, hw.symm⟩] at hflag
  rw [hmem]
  exact hflag

/-! ### The fields of the message -/

theorem getattr_templateId {filled : Memory} (hfilled :
      signal.action.claimed.layout.setattrs base m
        (signal.action.claimed.assignments signal.attributes) = some filled) :
    messageHeader.getattr base filled "header.templateId" =
      some (.number signal.action.claimed.templateId) := by
  have hfound : signal.action.claimed.layout.find? "header.templateId" =
      some (2, .unsigned 2) := rfl
  have hlookup : (signal.action.claimed.assignments signal.attributes).lookup "header.templateId" =
      some (.number signal.action.claimed.templateId) := rfl
  have hfits : (Value.number signal.action.claimed.templateId).Fits (.unsigned 2) := by
    cases signal.action <;> decide
  have hread : signal.action.claimed.layout.getattr base filled "header.templateId" =
      some (.number signal.action.claimed.templateId) :=
    Layout.getattr_setattrs (assignments_nodup _ signal) hfilled hfound hlookup hfits trivial
  exact hread

/-- A `NewOrderSingle` has the five attributes that matter. -/
theorem getattr_new {filled : Memory} (hrange : signal.InRange) (hnew : signal.action = .new)
    (hfilled : newOrderSingle.layout.setattrs base m
      (newOrderSingle.assignments signal.attributes) = some filled) :
    ∀ pair ∈ signal.fields, newOrderSingle.layout.getattr base filled pair.1 = some pair.2 := by
  have hread : ∀ name offset type v, newOrderSingle.layout.find? name = some (offset, type) →
      (newOrderSingle.assignments signal.attributes).lookup name = some v → v.Fits type →
      v.NulFree → newOrderSingle.layout.getattr base filled name = some v := by
    intro name offset type v hfound hlookup hfits hfree
    exact Layout.getattr_setattrs (assignments_nodup _ signal) hfilled hfound hlookup hfits hfree
  simp only [OrderRequest.fields, hnew, List.forall_mem_cons]
  refine ⟨?_, ?_, ?_, ?_, ?_, ?_⟩
  · exact hread "orderId" 24 (.unsigned 8) _ rfl rfl hrange.clientOrderId trivial
  · exact hread "side" 40 (.unsigned 1) _ rfl rfl signal.side.toInt_fits trivial
  · exact hread "orderQty" 41 (.unsigned 4) _ rfl rfl hrange.quantity trivial
  · exact hread "price" 46 (.signed 4) _ rfl rfl hrange.price trivial
  · exact hread "priceFactor" 50 (.signed 4) _ rfl rfl hrange.priceFactor trivial
  · intro pair hpair
    cases hpair

/-- A request survives exactly if it is for a new order and no other claim of
the publication waits. -/
theorem survives_iff (hrange : signal.InRange)
    (hpublish : s.publishOrder hdr (some signal) = some (true, t)) :
    Survives s t hdr signal ↔ signal.action = .new ∧ s.pub.toCommit = [] := by
  constructor
  · intro h
    have hnone : s.pub.toCommit = [] := by
      obtain ⟨w, -, hone⟩ := h.committed
      have hlength := publishOrder_committed hpublish
      rw [hone, List.length_append, List.length_singleton] at hlength
      exact List.eq_nil_of_length_eq_zero (by omega)
    refine ⟨?_, hnone⟩
    obtain ⟨filled, hfilled, -, hsame⟩ := publishOrder_sameOn hnone hpublish
    have htemplate := h.templateId
    rw [Layout.getattr_congr (hsame _), getattr_templateId hfilled] at htemplate
    cases haction : signal.action with
    | new => rfl
    | replace =>
      rw [haction] at htemplate
      exact absurd htemplate (by decide)
    | cancel =>
      rw [haction] at htemplate
      exact absurd htemplate (by decide)
  · rintro ⟨hnew, hnone⟩
    obtain ⟨filled, hfilled, hcommitted, hsame⟩ := publishOrder_sameOn hnone hpublish
    constructor
    · exact hcommitted
    · exact publishOrder_ready hpublish
    · rw [Layout.getattr_congr (hsame _), getattr_templateId hfilled, hnew]
      rfl
    · rw [hnew] at hfilled ⊢
      intro pair hpair
      rw [Layout.getattr_congr (hsame _)]
      exact getattr_new hrange hnew hfilled pair hpair

/-! ### The bytes of the message -/

/-- The values of a `NewOrderSingle`. -/
def newOrderValues (signal : OrderRequest) : List Value :=
  [.number 31, .number 1, .number 1, .number 1, .number 0, .number 0,
    .number signal.clientOrderId, .number 0, .number signal.side.toInt, .number signal.quantity,
    .number 0, .number signal.price, .number signal.priceFactor, .number 0]

/-- The values of the `ReplaceOrder` that a cancellation is published as. -/
def cancelValues (signal : OrderRequest) : List Value :=
  [.number 20, .number 3, .number 1, .number 1, .number 0, .number 0,
    .number signal.clientOrderId, .number 0, .number 0, .number 0]

theorem newOrderValues_fit (hrange : signal.InRange) :
    newOrderSingle.layout.Fit (newOrderValues signal) := by
  have hside := signal.side.toInt_fits
  simp [newOrderValues, Layout.Fit, MessageStruct.layout, messageHeader, newOrderSingle, hside,
    hrange.clientOrderId, hrange.quantity, hrange.price, hrange.priceFactor]
  decide

theorem cancelValues_fit (hrange : signal.InRange) :
    replaceOrder.layout.Fit (cancelValues signal) := by
  simp [cancelValues, Layout.Fit, MessageStruct.layout, messageHeader, replaceOrder,
    hrange.clientOrderId]
  decide

theorem newOrderValues_free (signal : OrderRequest) :
    ∀ v ∈ newOrderValues signal, v.NulFree := by
  simp [newOrderValues, Value.NulFree]

theorem cancelValues_free (signal : OrderRequest) : ∀ v ∈ cancelValues signal, v.NulFree := by
  simp [cancelValues, Value.NulFree]

/-- In a zeroed buffer the with-block leaves the encoding of what it assigned. -/
theorem messageBytes_eq (vs : List Value)
    (hzero : ∀ i, base ≤ i → i < base + signal.action.claimed.layout.size → m i = 0)
    (hvalues : signal.action.claimed.layout.map
      (Layout.written (signal.action.claimed.assignments signal.attributes)) = vs)
    (hfit : signal.action.claimed.layout.Fit vs) (hfree : ∀ v ∈ vs, v.NulFree) :
    messageBytes m base signal = some (signal.action.claimed.layout.encode vs) := by
  obtain ⟨filled, hfilled⟩ := exists_filled signal.action signal m base
  have hnames := (structs_wellFormed.2 _ (claimed_mem_structs signal.action)).1
  subst hvalues
  have hbytes := Layout.bytes_setattrs_zeroed hnames (assignments_nodup _ signal) hfit hfree hzero
    hfilled
  have hbody := setattrs_after_enter signal.action.claimed m base signal.attributes
  rw [hfilled] at hbody
  simp only [messageBytes, hbody, Option.map_some, hbytes]

theorem messageBytes_new (hrange : signal.InRange) (hnew : signal.action = .new)
    (hzero : ∀ i, base ≤ i → i < base + signal.action.claimed.layout.size → m i = 0) :
    messageBytes m base signal = some (newOrderSingle.layout.encode (newOrderValues signal)) := by
  have hclaimed : signal.action.claimed = newOrderSingle := by rw [hnew]; rfl
  have hbytes := messageBytes_eq (newOrderValues signal) hzero
  rw [hclaimed] at hbytes
  exact hbytes rfl (newOrderValues_fit hrange) (newOrderValues_free signal)

theorem messageBytes_cancel (hrange : signal.InRange) (hcancel : signal.action = .cancel)
    (hzero : ∀ i, base ≤ i → i < base + signal.action.claimed.layout.size → m i = 0) :
    messageBytes m base signal = some (replaceOrder.layout.encode (cancelValues signal)) := by
  have hclaimed : signal.action.claimed = replaceOrder := by rw [hcancel]; rfl
  have hbytes := messageBytes_eq (cancelValues signal) hzero
  rw [hclaimed] at hbytes
  exact hbytes rfl (cancelValues_fit hrange) (cancelValues_free signal)

theorem OrderSide.toInt_inj {side other : OrderSide} : side.toInt = other.toInt ↔ side = other := by
  cases side <;> cases other <;> decide

theorem newOrderValues_inj (signal other : OrderRequest) :
    newOrderValues signal = newOrderValues other ↔
      signal.clientOrderId = other.clientOrderId ∧ signal.side = other.side ∧
        signal.quantity = other.quantity ∧ signal.price = other.price ∧
        signal.priceFactor = other.priceFactor := by
  simp [newOrderValues, OrderSide.toInt_inj]

theorem cancelValues_inj (signal other : OrderRequest) :
    cancelValues signal = cancelValues other ↔ signal.clientOrderId = other.clientOrderId := by
  simp [cancelValues]

/-- The two kinds of messages differ in size. -/
theorem encode_new_ne_cancel (hrange : signal.InRange) (hrange' : other.InRange) :
    newOrderSingle.layout.encode (newOrderValues signal) ≠
      replaceOrder.layout.encode (cancelValues other) := by
  intro heq
  have hlength := congrArg List.length heq
  rw [Layout.length_encode (newOrderValues_fit hrange),
    Layout.length_encode (cancelValues_fit hrange')] at hlength
  exact absurd hlength (by decide)

/-- The symbol never reaches the wire: requests for new orders and
cancellations give the same bytes unless they differ elsewhere. -/
theorem messageBytes_ne_iff (hrange : signal.InRange) (hrange' : other.InRange)
    (hkind : signal.action = .new ∨ signal.action = .cancel)
    (hkind' : other.action = .new ∨ other.action = .cancel) {base' : Nat}
    (hzero : ∀ i, base ≤ i → i < base + signal.action.claimed.layout.size → m i = 0)
    (hzero' : ∀ i, base' ≤ i → i < base' + other.action.claimed.layout.size → m' i = 0) :
    messageBytes m base signal ≠ messageBytes m' base' other ↔ DiffersOnWire signal other := by
  unfold DiffersOnWire
  rcases hkind with hnew | hcancel
  · rw [messageBytes_new hrange hnew hzero]
    rcases hkind' with hnew' | hcancel'
    · rw [messageBytes_new hrange' hnew' hzero', Ne, Option.some_inj,
        Layout.encode_inj (newOrderValues_fit hrange) (newOrderValues_free signal)
          (newOrderValues_fit hrange') (newOrderValues_free other),
        newOrderValues_inj, hnew, hnew']
      tauto
    · rw [messageBytes_cancel hrange' hcancel' hzero']
      refine iff_of_true ?_ (Or.inl ?_)
      · intro heq
        exact encode_new_ne_cancel hrange hrange' (Option.some.inj heq)
      · rw [hnew, hcancel']
        decide
  · rw [messageBytes_cancel hrange hcancel hzero]
    rcases hkind' with hnew' | hcancel'
    · rw [messageBytes_new hrange' hnew' hzero']
      refine iff_of_true ?_ (Or.inl ?_)
      · intro heq
        exact encode_new_ne_cancel hrange' hrange (Option.some.inj heq).symm
      · rw [hcancel, hnew']
        decide
    · rw [messageBytes_cancel hrange' hcancel' hzero', Ne, Option.some_inj,
        Layout.encode_inj (cancelValues_fit hrange) (cancelValues_free signal)
          (cancelValues_fit hrange') (cancelValues_free other),
        cancelValues_inj, hcancel, hcancel']
      simp

/-- Where no claim waits, these are the bytes that are committed. -/
theorem committed_bytes (hnone : s.pub.toCommit = [])
    (hpublish : s.publishOrder hdr (some signal) = some (true, t)) :
    messageBytes s.pub.mem (hdr + sizeofMessageHeader) signal =
      some (t.pub.mem.bytes (hdr + sizeofMessageHeader) signal.action.claimed.layout.size) := by
  obtain ⟨filled, hfilled, -, hsame⟩ := publishOrder_sameOn hnone hpublish
  have hbody := setattrs_after_enter signal.action.claimed s.pub.mem (hdr + sizeofMessageHeader)
    signal.attributes
  rw [hfilled] at hbody
  simp only [messageBytes, hbody, Option.map_some, bytes_congr (hsame _)]

end

/-- A request survives the wire exactly if it is for a new order and no other
claim of the publication waits; and new orders and cancellations for different
symbols give different bytes exactly if they differ in their action, their order
id or, for new orders, in the side or one of the three numbers. -/
theorem order_requests_on_wire (symbolMapping : String → Option Nat) :
    (∀ (s : Session) (hdr : Nat) (signal : OrderRequest), signal.InRange →
      ∃ t, s.publishOrder hdr (some signal) = some (true, t) ∧
        (Survives s t hdr signal ↔ signal.action = .new ∧ s.pub.toCommit = [])) ∧
    ∀ (signal other : OrderRequest) (id id' : Nat), signal.InRange → other.InRange →
      (signal.action = .new ∨ signal.action = .cancel) →
      (other.action = .new ∨ other.action = .cancel) →
      symbolMapping signal.symbol = some id → symbolMapping other.symbol = some id' → id ≠ id' →
      ∀ (m m' : Memory) (base base' : Nat),
        (∀ i, base ≤ i → i < base + signal.action.claimed.layout.size → m i = 0) →
        (∀ i, base' ≤ i → i < base' + other.action.claimed.layout.size → m' i = 0) →
        (messageBytes m base signal ≠ messageBytes m' base' other ↔ DiffersOnWire signal other) := by
  constructor
  · intro s hdr signal hrange
    obtain ⟨t, -, -, hpublish, -⟩ := publishOrder_filled s hdr signal
    exact ⟨t, hpublish, survives_iff hrange hpublish⟩
  · intro signal other id id' hrange hrange' hkind hkind' _ _ _ m m' base base' hzero hzero'
    exact messageBytes_ne_iff hrange hrange' hkind hkind' hzero hzero'

def order (action : OrderAction) (symbol : String) : OrderRequest where
  action := action
  symbol := symbol
  quantity := 10
  price := -100
  priceFactor := 2
  clientOrderId := 7
  side := .buy

theorem order_inRange (action : OrderAction) (symbol : String) : (order action symbol).InRange := by
  constructor
  · exact (by decide : (Value.number 7).Fits (.unsigned 8))
  · exact (by decide : (Value.number 10).Fits (.unsigned 4))
  · exact (by decide : (Value.number (-100)).Fits (.signed 4))
  · exact (by decide : (Value.number 2).Fits (.signed 4))

/-- A new order survives, and is told from the cancellation of another one. -/
theorem new_order_on_wire :
    (∃ t, Session.init.publishOrder 0 (some (order .new "AAPL")) = some (true, t) ∧
      Survives .init t 0 (order .new "AAPL")) ∧
    messageBytes (fun _ => 0) 0 (order .new "AAPL") ≠
      messageBytes (fun _ => 0) 0 (order .cancel "MSFT") := by
  obtain ⟨hsurvives, hbytes⟩ :=
    order_requests_on_wire fun symbol => if symbol = "AAPL" then some 1 else some 2
  constructor
  · obtain ⟨t, hpublish, hiff⟩ := hsurvives .init 0 (order .new "AAPL") (order_inRange _ _)
    exact ⟨t, hpublish, hiff.mpr ⟨rfl, rfl⟩⟩
  · refine (hbytes (order .new "AAPL") (order .cancel "MSFT") 1 2 (order_inRange _ _)
      (order_inRange _ _) (Or.inl rfl) (Or.inr rfl) rfl rfl (by decide) (fun _ => 0) (fun _ => 0)
      0 0 ?_ ?_).mpr (Or.inl (by decide))
    · exact fun _ _ _ => rfl
    · exact fun _ _ _ => rfl

/-- A replacement goes out as a `CancelOrder`, and new orders for two symbols as
the same bytes. -/
theorem order_requests_confused :
    (∃ t, Session.init.publishOrder 0 (some (order .replace "AAPL")) = some (true, t) ∧
      messageHeader.getattr sizeofMessageHeader t.pub.mem "header.templateId" =
        some (.number cancelOrder.templateId) ∧
      ¬ Survives .init t 0 (order .replace "AAPL")) ∧
    ∃ symbolMapping : String → Option Nat,
      symbolMapping "AAPL" = some 1 ∧ symbolMapping "MSFT" = some 2 ∧
        messageBytes (fun _ => 0) 0 (order .new "AAPL") =
          messageBytes (fun _ => 0) 0 (order .new "MSFT") := by
  constructor
  · obtain ⟨t, -, -, hpublish, -⟩ := publishOrder_filled .init 0 (order .replace "AAPL")
    obtain ⟨filled, hfilled, -, hsame⟩ := publishOrder_sameOn rfl hpublish
    refine ⟨t, hpublish, ?_, ?_⟩
    · have hread := getattr_templateId hfilled
      rw [← Layout.getattr_congr (hsame _)] at hread
      rw [← Nat.zero_add sizeofMessageHeader, hread]
      rfl
    · intro hsurvives
      have hnew := ((survives_iff (order_inRange _ _) hpublish).mp hsurvives).1
      exact absurd hnew (by decide)
  · refine ⟨fun symbol => if symbol = "AAPL" then some 1 else some 2, rfl, rfl, ?_⟩
    have hzero : ∀ i, 0 ≤ i → i < 0 + OrderAction.new.claimed.layout.size →
        (fun _ => 0 : Memory) i = 0 := fun _ _ _ => rfl
    rw [messageBytes_new (order_inRange .new "AAPL") rfl hzero,
      messageBytes_new (order_inRange .new "MSFT") rfl hzero]
    rfl

end MockExchange
