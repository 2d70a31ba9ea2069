import MockExchange.Book
import Mathlib.Algebra.Order.BigOperators.Group.Finset
import Mathlib.Data.Nat.Cast.Order.Basic

/-!
# Cancelling orders

The ledger keeps its active orders in one map and the books in which they rest
in another, per product. A `CancelOrder` names an order and a symbol, and
`process_cancel_order` looks both up on their own: the order is erased from the
book of the named symbol, and from the active orders whatever came of that.
-/

namespace MockExchange

structure Product where
  book : Book
deriving DecidableEq

/-- `products` and `active_orders`. -/
structure Ledger where
  products : Nat → Option Product
  activeOrders : Nat → Option ActiveOrder

structure CancelOrder where
  orderId : Nat
  symbolId : Nat
deriving DecidableEq, Repr

namespace Ledger

def processCancelOrder (l : Ledger) (order : CancelOrder) : Ledger :=
  match l.products order.symbolId with
  | none => l
  | some product =>
    match l.activeOrders order.orderId with
    | none => l
    | some active =>
      let book := (product.book.eraseOrder active).2
      { products := Function.update l.products order.symbolId (some { product with book := book })
        activeOrders := Function.update l.activeOrders order.orderId none }

/-- What the call of `erase_order` in `process_cancel_order` returns, if it is
made. -/
def cancelApplied (l : Ledger) (order : CancelOrder) : Bool :=
  match l.products order.symbolId, l.activeOrders order.orderId with
  | some product, some active => (product.book.eraseOrder active).1
  | _, _ => false

/-- The quantity of an active order. -/
def quantity (l : Ledger) (id : Nat) : Nat := (l.activeOrders id).elim 0 ActiveOrder.quantity

/-- In how many levels of a side an id belongs: in one of the order's own side
of its own product's book, and in none anywhere else. -/
def placed (l : Ledger) (id symbol : Nat) (isBid : Bool) : Nat :=
  match l.activeOrders id with
  | some order => if order.product = symbol ∧ order.isBid = isBid then 1 else 0
  | none => 0

/-- Active orders and the ids in book levels correspond one to one, and every
level counts the quantities of its orders. -/
structure Consistent (l : Ledger) : Prop where
  key : ∀ id order, l.activeOrders id = some order → order.orderId = id
  product : ∀ id order, l.activeOrders id = some order →
    ∃ product, l.products order.product = some product
  levels : ∀ symbol product, l.products symbol = some product → ∀ isBid id,
    occurrences (product.book.side isBid) id = l.placed id symbol isBid
  totals : ∀ symbol product, l.products symbol = some product → ∀ isBid,
    ∀ level ∈ product.book.side isBid, level.totalCount = ∑ id ∈ level.orderIds, l.quantity id

/-- The cancel names an unknown symbol or an unknown order, or the order's own
product, where the order's level has no other order or one with a quantity. -/
def CancelFits (l : Ledger) (order : CancelOrder) : Prop :=
  l.products order.symbolId = none ∨ l.activeOrders order.orderId = none ∨
    ∃ product active, l.products order.symbolId = some product ∧
      l.activeOrders order.orderId = some active ∧ active.product = order.symbolId ∧
      ∀ level ∈ product.book.side active.isBid, order.orderId ∈ level.orderIds →
        level.orderIds = {order.orderId} ∨
          ∃ id ∈ level.orderIds, id ≠ order.orderId ∧ 0 < l.quantity id

section

variable {l : Ledger} {order : CancelOrder} {product : Product} {active : ActiveOrder}

theorem processCancelOrder_unknown
    (h : l.products order.symbolId = none ∨ l.activeOrders order.orderId = none) :
    l.processCancelOrder order = l := by
  unfold processCancelOrder
  rcases h with h | h
  · rw [h]
  · rw [h]
    cases l.products order.symbolId <;> rfl

/-- A cancel of an active order over a known symbol. -/
structure Known (l : Ledger) (order : CancelOrder) (product : Product) (active : ActiveOrder) :
    Prop where
  product : l.products order.symbolId = some product
  active : l.activeOrders order.orderId = some active

theorem Known.process (h : l.Known order product active) : l.processCancelOrder order =
    { products := Function.update l.products order.symbolId
        (some { product with book := (product.book.eraseOrder active).2 })
      activeOrders := Function.update l.activeOrders order.orderId none } := by
  simp only [processCancelOrder, h.product, h.active]

theorem Known.applied (h : l.Known order product active) :
    l.cancelApplied order = (product.book.eraseOrder active).1 := by
  simp only [cancelApplied, h.product, h.active]

theorem Known.activeOrders (h : l.Known order product active) (id : Nat) :
    (l.processCancelOrder order).activeOrders id =
      if id = order.orderId then none else l.activeOrders id := by
  rw [h.process]
  exact Function.update_apply _ _ _ _

theorem Known.products (h : l.Known order product active) (symbol : Nat) :
    (l.processCancelOrder order).products symbol =
      if symbol = order.symbolId then
        some { product with book := (product.book.eraseOrder active).2 }
      else l.products symbol := by
  rw [h.process]
  exact Function.update_apply _ _ _ _

theorem Known.quantity (h : l.Known order product active) {id : Nat} (hne : id ≠ order.orderId) :
    (l.processCancelOrder order).quantity id = l.quantity id := by
  rw [Ledger.quantity, h.activeOrders, if_neg hne]
  rfl

theorem Known.placed (h : l.Known order product active) (id symbol : Nat) (isBid : Bool) :
    (l.processCancelOrder order).placed id symbol isBid =
      if id = order.orderId then 0 else l.placed id symbol isBid := by
  unfold Ledger.placed
  rw [h.activeOrders]
  by_cases hid : id = order.orderId
  · rw [if_pos hid, if_pos hid]
  · rw [if_neg hid, if_neg hid]

/-! ### A cancel that names another product -/

/-- The book of another product does not have the order, and the order is gone
all the same. -/
theorem Consistent.cancel_elsewhere (hl : l.Consistent) (h : l.Known order product active)
    (hne : active.product ≠ order.symbolId) :
    l.cancelApplied order = false ∧ l.processCancelOrder order ≠ l := by
  have hid := hl.key _ _ h.active
  have hnone : occurrences (product.book.side active.isBid) order.orderId = 0 := by
    rw [hl.levels _ _ h.product, Ledger.placed, h.active]
    simp [hne]
  constructor
  · rw [h.applied, Book.eraseOrder_found, removeOrderFromSide_of_not_mem]
    rw [hid]
    exact occurrences_eq_zero.mp hnone
  · intro hsame
    have hgone := h.activeOrders order.orderId
    rw [hsame, if_pos rfl, h.active] at hgone
    cases hgone

/-! ### A cancel that names the order's product -/

/-- The one level that has the order. -/
structure Located (l : Ledger) (order : CancelOrder) (product : Product) (active : ActiveOrder)
    (before : List PriceLevel) (level : PriceLevel) (after : List PriceLevel) : Prop where
  side : product.book.side active.isBid = before ++ level :: after
  mem : order.orderId ∈ level.orderIds
  not_before : occurrences before order.orderId = 0
  not_after : occurrences after order.orderId = 0
  removed : removeOrderFromSide (product.book.side active.isBid) active =
    (true, before ++ ((level.reduce active).toList ++ after))

theorem Consistent.located (hl : l.Consistent) (h : l.Known order product active)
    (hown : active.product = order.symbolId) :
    ∃ before level after, l.Located order product active before level after := by
  have hid := hl.key _ _ h.active
  have hone : occurrences (product.book.side active.isBid) order.orderId = 1 := by
    rw [hl.levels _ _ h.product, Ledger.placed, h.active]
    simp [hown]
  have hmem : ∃ level ∈ product.book.side active.isBid, active.orderId ∈ level.orderIds := by
    by_contra hnot
    rw [occurrences_eq_zero.mpr] at hone
    · cases hone
    · intro level hlevel hin
      exact hnot ⟨level, hlevel, hid ▸ hin⟩
  obtain ⟨before, level, after, hside, hbefore, hin, hremoved⟩ := removeOrderFromSide_of_mem hmem
  rw [hid] at hbefore hin
  have hnone : occurrences before order.orderId = 0 := occurrences_eq_zero.mpr hbefore
  rw [hside, occurrences_append, occurrences_cons, if_pos hin] at hone
  exact ⟨before, level, after, hside, hin, hnone, by omega, hremoved⟩

section

variable {before after : List PriceLevel} {level : PriceLevel}

theorem Known.sum_quantity (h : l.Known order product active) {ids : Finset Nat}
    (hnot : order.orderId ∉ ids) :
    ∑ id ∈ ids, (l.processCancelOrder order).quantity id = ∑ id ∈ ids, l.quantity id := by
  refine Finset.sum_congr rfl ?_
  intro id hid
  refine h.quantity ?_
  rintro rfl
  exact hnot hid

/-- What the other orders of the level add up to. -/
def others (l : Ledger) (order : CancelOrder) (level : PriceLevel) : Nat :=
  ∑ id ∈ level.orderIds.erase order.orderId, l.quantity id

theorem Consistent.total_eq (hl : l.Consistent) (h : l.Known order product active)
    (hloc : l.Located order product active before level after) :
    level.totalCount = active.quantity + l.others order level := by
  have hmem : level ∈ product.book.side active.isBid := by
    rw [hloc.side]
    simp
  have hown : l.quantity order.orderId = active.quantity := by
    rw [Ledger.quantity, h.active]
    rfl
  rw [hl.totals _ _ h.product _ level hmem, ← Finset.add_sum_erase _ _ hloc.mem, hown, others]

/-- The level is erased when its other orders add up to nothing. -/
theorem Consistent.reduce_eq (hl : l.Consistent) (h : l.Known order product active)
    (hloc : l.Located order product active before level after) : level.reduce active =
      if l.others order level = 0 then none
      else some { level with
        orderIds := level.orderIds.erase order.orderId
        totalCount := l.others order level } := by
  have htotal := hl.total_eq h hloc
  rw [PriceLevel.reduce_eq, hl.key _ _ h.active]
  by_cases hzero : l.others order level = 0
  · rw [if_pos (by omega), if_pos hzero]
  · rw [if_neg (by omega), if_neg hzero, htotal, Nat.add_sub_cancel_left]

/-- A side of a book after the cancel: the one with the reduced level, or one
that stayed as it was and does not have the order. -/
theorem Consistent.sides (hl : l.Consistent) (h : l.Known order product active)
    (hown : active.product = order.symbolId)
    (hloc : l.Located order product active before level after) {symbol : Nat} {product' : Product}
    (hproduct : (l.processCancelOrder order).products symbol = some product') (isBid : Bool) :
    (symbol = order.symbolId ∧ isBid = active.isBid ∧
      product'.book.side isBid = before ++ ((level.reduce active).toList ++ after)) ∨
    ∃ old, l.products symbol = some old ∧ product'.book.side isBid = old.book.side isBid ∧
      occurrences (old.book.side isBid) order.orderId = 0 := by
  have hnone : ¬ (active.product = symbol ∧ active.isBid = isBid) →
      l.placed order.orderId symbol isBid = 0 := by
    intro hne
    rw [Ledger.placed, h.active]
    exact if_neg hne
  rw [h.products] at hproduct
  split at hproduct
  · rename_i hsymbol
    cases hproduct
    rw [Book.eraseOrder_side]
    by_cases hside : isBid = active.isBid
    · refine Or.inl ⟨hsymbol, hside, ?_⟩
      rw [if_pos hside, hside, hloc.removed]
    · refine Or.inr ⟨product, hsymbol ▸ h.product, if_neg hside, ?_⟩
      rw [hl.levels symbol product (hsymbol ▸ h.product)]
      exact hnone fun hboth => hside hboth.2.symm
  · rename_i hsymbol
    refine Or.inr ⟨product', hproduct, rfl, ?_⟩
    rw [hl.levels symbol product' hproduct]
    exact hnone fun hboth => hsymbol (hboth.1.symm.trans hown)

/-- A level that was erased with orders left in it breaks the correspondence. -/
theorem Located.orders_left (hl : l.Consistent) (h : l.Known order product active)
    (hloc : l.Located order product active before level after)
    (hafter : (l.processCancelOrder order).Consistent) (hzero : l.others order level = 0) :
    level.orderIds.erase order.orderId = ∅ := by
  rw [Finset.eq_empty_iff_forall_notMem]
  intro id hid
  obtain ⟨hne, hin⟩ := Finset.mem_erase.mp hid
  have hproduct := h.products order.symbolId
  rw [if_pos rfl] at hproduct
  have hcount := hafter.levels _ _ hproduct active.isBid id
  rw [Book.eraseOrder_side, if_pos rfl, hloc.removed, hl.reduce_eq h hloc, if_pos hzero,
    h.placed, if_neg hne, ← hl.levels _ _ h.product, hloc.side] at hcount
  simp [hin] at hcount

/-- Where the ids of a side belong after the cancel. -/
theorem Located.occurrences_eq (hl : l.Consistent) (h : l.Known order product active)
    (hloc : l.Located order product active before level after)
    (hleft : level.orderIds.erase order.orderId = ∅ ∨ l.others order level ≠ 0) (id : Nat) :
    occurrences (before ++ ((level.reduce active).toList ++ after)) id =
      if id = order.orderId then 0 else occurrences (product.book.side active.isBid) id := by
  rw [hloc.side, hl.reduce_eq h hloc]
  by_cases hid : id = order.orderId
  · rw [if_pos hid, hid]
    split <;> simp [hloc.not_before, hloc.not_after]
  · rw [if_neg hid]
    by_cases hzero : l.others order level = 0
    · have hempty := hleft.resolve_right (not_not_intro hzero)
      have hnot : id ∉ level.orderIds := by
        intro hin
        have hmem := Finset.mem_erase.mpr ⟨hid, hin⟩
        rw [hempty] at hmem
        exact absurd hmem (Finset.notMem_empty id)
      rw [if_pos hzero]
      simp [hnot]
    · rw [if_neg hzero]
      simp [Finset.mem_erase, hid]

/-- A level without the order counts what it counted before. -/
theorem Consistent.total_kept (hl : l.Consistent) (h : l.Known order product active)
    {symbol : Nat} {old : Product} (hold : l.products symbol = some old) {isBid : Bool}
    {levels : List PriceLevel} (hsub : ∀ level ∈ levels, level ∈ old.book.side isBid)
    (hnone : occurrences levels order.orderId = 0) {level : PriceLevel} (hlevel : level ∈ levels) :
    level.totalCount = ∑ id ∈ level.orderIds, (l.processCancelOrder order).quantity id := by
  rw [hl.totals symbol old hold isBid level (hsub level hlevel)]
  exact (h.sum_quantity (occurrences_eq_zero.mp hnone level hlevel)).symm

theorem Located.consistent (hl : l.Consistent) (h : l.Known order product active)
    (hown : active.product = order.symbolId)
    (hloc : l.Located order product active before level after)
    (hleft : level.orderIds.erase order.orderId = ∅ ∨ l.others order level ≠ 0) :
    (l.processCancelOrder order).Consistent where
  key := by
    intro id other hother
    rw [h.activeOrders] at hother
    split at hother
    · cases hother
    · exact hl.key id other hother
  product := by
    intro id other hother
    rw [h.activeOrders] at hother
    split at hother
    · cases hother
    · rw [h.products]
      split
      · exact ⟨_, rfl⟩
      · exact hl.product id other hother
  levels := by
    intro symbol product' hproduct isBid id
    rw [h.placed]
    rcases hl.sides h hown hloc hproduct isBid with ⟨rfl, rfl, hside⟩ | ⟨old, hold, hside, hnone⟩
    · rw [hside, hloc.occurrences_eq hl h hleft, hl.levels _ _ h.product]
    · rw [hside]
      split
      · rename_i hid
        rw [hid]
        exact hnone
      · exact hl.levels symbol old hold isBid id
  totals := by
    intro symbol product' hproduct isBid other hother
    rcases hl.sides h hown hloc hproduct isBid with ⟨rfl, rfl, hside⟩ | ⟨old, hold, hside, hnone⟩
    · rw [hside, List.mem_append, List.mem_append] at hother
      rcases hother with hbefore | hreduced | hafter
      · have hsub : ∀ level ∈ before, level ∈ product.book.side active.isBid := by
          rw [hloc.side]
          exact fun level hlevel => List.mem_append_left _ hlevel
        exact hl.total_kept h h.product hsub hloc.not_before hbefore
      · rw [hl.reduce_eq h hloc] at hreduced
        split at hreduced
        · simp at hreduced
        · rw [← Option.some.inj (Option.mem_toList.mp hreduced)]
          exact (h.sum_quantity (Finset.notMem_erase _ _)).symm
      · have hsub : ∀ level ∈ after, level ∈ product.book.side active.isBid := by
          rw [hloc.side]
          exact fun level hlevel => List.mem_append_right _ (List.mem_cons_of_mem _ hlevel)
        exact hl.total_kept h h.product hsub hloc.not_after hafter
    · rw [hside] at hother
      exact hl.total_kept h hold (fun level hlevel => hlevel) hnone hother

/-- The level keeps no order, or an order with a quantity. -/
theorem Located.left_iff (hloc : l.Located order product active before level after) :
    (level.orderIds.erase order.orderId = ∅ ∨ l.others order level ≠ 0) ↔
      ∀ other ∈ product.book.side active.isBid, order.orderId ∈ other.orderIds →
        other.orderIds = {order.orderId} ∨
          ∃ id ∈ other.orderIds, id ≠ order.orderId ∧ 0 < l.quantity id := by
  have honly : ∀ other ∈ product.book.side active.isBid, order.orderId ∈ other.orderIds →
      other = level := by
    intro other hother hin
    rw [hloc.side, List.mem_append, List.mem_cons] at hother
    rcases hother with hbefore | rfl | hafter
    · exact absurd hin (occurrences_eq_zero.mp hloc.not_before other hbefore)
    · rfl
    · exact absurd hin (occurrences_eq_zero.mp hloc.not_after other hafter)
  have hlevel : level ∈ product.book.side active.isBid := by
    rw [hloc.side]
    simp
  have hempty : level.orderIds.erase order.orderId = ∅ ↔ level.orderIds = {order.orderId} := by
    rw [Finset.erase_eq_empty_iff]
    constructor
    · rintro (hnil | hsingle)
      · have hmem := hloc.mem
        rw [hnil] at hmem
        exact absurd hmem (Finset.notMem_empty _)
      · exact hsingle
    · exact Or.inr
  have hpositive : l.others order level ≠ 0 ↔
      ∃ id ∈ level.orderIds, id ≠ order.orderId ∧ 0 < l.quantity id := by
    rw [others, Ne, Finset.sum_eq_zero_iff]
    constructor
    · intro hnot
      by_contra hall
      refine hnot ?_
      intro id hid
      obtain ⟨hne, hin⟩ := Finset.mem_erase.mp hid
      by_contra hpos
      exact hall ⟨id, hin, hne, Nat.pos_of_ne_zero hpos⟩
    · rintro ⟨id, hin, hne, hpos⟩ hall
      have := hall id (Finset.mem_erase.mpr ⟨hne, hin⟩)
      omega
  rw [hempty, hpositive]
  constructor
  · intro hleft other hother hin
    rw [honly other hother hin]
    exact hleft
  · intro hall
    exact hall level hlevel hloc.mem

end

/-- A cancel keeps a consistent ledger consistent, and one that does not reach a
book leaves it unchanged, exactly if the cancel fits. -/
theorem processCancelOrder_consistent (l : Ledger) (order : CancelOrder) (hl : l.Consistent) :
    ((l.processCancelOrder order).Consistent ∧
      (l.cancelApplied order = false → l.processCancelOrder order = l)) ↔
        l.CancelFits order := by
  by_cases hunknown : l.products order.symbolId = none ∨ l.activeOrders order.orderId = none
  · rw [processCancelOrder_unknown hunknown]
    refine iff_of_true ⟨hl, fun _ => rfl⟩ ?_
    rcases hunknown with hsymbol | hid
    · exact Or.inl hsymbol
    · exact Or.inr (Or.inl hid)
  · rw [not_or] at hunknown
    obtain ⟨product, hproduct⟩ := Option.ne_none_iff_exists'.mp hunknown.1
    obtain ⟨active, hactive⟩ := Option.ne_none_iff_exists'.mp hunknown.2
    have h : l.Known order product active := ⟨hproduct, hactive⟩
    have hfits : l.CancelFits order ↔ active.product = order.symbolId ∧
        ∀ level ∈ product.book.side active.isBid, order.orderId ∈ level.orderIds →
          level.orderIds = {order.orderId} ∨
            ∃ id ∈ level.orderIds, id ≠ order.orderId ∧ 0 < l.quantity id := by
      simp [CancelFits, hproduct, hactive]
    rw [hfits]
    by_cases hown : active.product = order.symbolId
    · obtain ⟨before, level, after, hloc⟩ := hl.located h hown
      rw [← hloc.left_iff]
      constructor
      · rintro ⟨hafter, -⟩
        refine ⟨hown, ?_⟩
        by_cases hzero : l.others order level = 0
        · exact Or.inl (hloc.orders_left hl h hafter hzero)
        · exact Or.inr hzero
      · rintro ⟨-, hleft⟩
        refine ⟨hloc.consistent hl h hown hleft, ?_⟩
        rw [h.applied, Book.eraseOrder_found, hloc.removed]
        intro hfalse
        cases hfalse
    · obtain ⟨hnot, hchanged⟩ := hl.cancel_elsewhere h hown
      constructor
      · rintro ⟨-, hsame⟩
        exact absurd (hsame hnot) hchanged
      · rintro ⟨hsame, -⟩
        exact absurd hsame hown

end

/-- Orders 7 and 8 of product 1 rest at one bid price; product 2 has no orders. -/
def twoOrders : Ledger where
  products symbol :=
    if symbol = 1 then some ⟨⟨[⟨100, 0, {7, 8}, 8⟩], []⟩⟩
    else if symbol = 2 then some ⟨⟨[], []⟩⟩
    else none
  activeOrders id :=
    if id = 7 then some ⟨1, 7, 100, 0, 5, true⟩
    else if id = 8 then some ⟨1, 8, 100, 0, 3, true⟩
    else none

theorem twoOrders_active {id : Nat} {order : ActiveOrder}
    (h : twoOrders.activeOrders id = some order) : (id = 7 ∨ id = 8) ∧ order.orderId = id ∧
      order.product = 1 ∧ order.isBid = true ∧ 0 < order.quantity := by
  simp only [twoOrders] at h
  split at h
  · cases h
    exact ⟨Or.inl ‹_›, Eq.symm ‹_›, rfl, rfl, by decide⟩
  · split at h
    · cases h
      exact ⟨Or.inr ‹_›, Eq.symm ‹_›, rfl, rfl, by decide⟩
    · cases h

theorem twoOrders_product {symbol : Nat} {product : Product}
    (h : twoOrders.products symbol = some product) :
    (symbol = 1 ∧ product = ⟨⟨[⟨100, 0, {7, 8}, 8⟩], []⟩⟩) ∨
      symbol = 2 ∧ product = ⟨⟨[], []⟩⟩ := by
  simp only [twoOrders] at h
  split at h
  · exact Or.inl ⟨‹_›, (Option.some.inj h).symm⟩
  · split at h
    · exact Or.inr ⟨‹_›, (Option.some.inj h).symm⟩
    · cases h

theorem twoOrders_placed (id symbol : Nat) (isBid : Bool) : twoOrders.placed id symbol isBid =
    if (id = 7 ∨ id = 8) ∧ symbol = 1 ∧ isBid = true then 1 else 0 := by
  unfold placed
  cases hactive : twoOrders.activeOrders id with
  | some order =>
    obtain ⟨hid, -, hproduct, hside, -⟩ := twoOrders_active hactive
    simp only [hid, hproduct, hside, true_and, eq_comm]
  | none =>
    have hnone : ¬ (id = 7 ∨ id = 8) := by
      rintro (rfl | rfl) <;> cases hactive
    rw [if_neg fun h => hnone h.1]

theorem twoOrders_consistent : twoOrders.Consistent where
  key id order horder := (twoOrders_active horder).2.1
  product id order horder := by
    obtain ⟨-, -, hproduct, -⟩ := twoOrders_active horder
    rw [hproduct]
    exact ⟨_, rfl⟩
  levels := by
    intro symbol product hproduct isBid id
    rw [twoOrders_placed]
    rcases twoOrders_product hproduct with ⟨rfl, rfl⟩ | ⟨rfl, rfl⟩
    · cases isBid <;> simp [occurrences, Book.side, List.countP_cons]
    · cases isBid <;> simp [occurrences, Book.side]
  totals := by
    intro symbol product hproduct isBid level hlevel
    rcases twoOrders_product hproduct with ⟨rfl, rfl⟩ | ⟨rfl, rfl⟩
    · cases isBid with
      | true =>
        rw [List.mem_singleton.mp hlevel, Finset.sum_pair (by decide)]
        rfl
      | false => cases hlevel
    · cases isBid <;> cases hlevel

/-- An order is cancelled over its own product; another one is left at its price. -/
theorem processCancelOrder_consistent_own_product :
    (twoOrders.processCancelOrder ⟨7, 1⟩).Consistent := by
  refine ((processCancelOrder_consistent twoOrders ⟨7, 1⟩ twoOrders_consistent).mpr ?_).1
  refine Or.inr (Or.inr ⟨_, _, rfl, rfl, rfl, ?_⟩)
  intro level hlevel _
  rw [List.mem_singleton.mp hlevel]
  exact Or.inr ⟨8, by decide, by decide, by decide⟩

/-- An order is cancelled over the other product: its id stays in the book and is
active no more. -/
theorem cancel_elsewhere_inconsistent : twoOrders.Consistent ∧
    ¬ (twoOrders.processCancelOrder ⟨7, 2⟩).Consistent ∧
    twoOrders.cancelApplied ⟨7, 2⟩ = false ∧ twoOrders.processCancelOrder ⟨7, 2⟩ ≠ twoOrders := by
  have hknown : twoOrders.Known ⟨7, 2⟩ ⟨⟨[], []⟩⟩ ⟨1, 7, 100, 0, 5, true⟩ := ⟨rfl, rfl⟩
  refine ⟨twoOrders_consistent, ?_, twoOrders_consistent.cancel_elsewhere hknown (by decide)⟩
  intro hafter
  have hproduct : (twoOrders.processCancelOrder ⟨7, 2⟩).products 1 =
      some ⟨⟨[⟨100, 0, {7, 8}, 8⟩], []⟩⟩ := hknown.products 1
  have hcount := hafter.levels 1 _ hproduct true 7
  rw [hknown.placed, if_pos rfl] at hcount
  cases hcount

end Ledger

end MockExchange
