import Mathlib.Algebra.BigOperators.Group.Finset.Basic
import Mathlib.Data.Finset.Basic

/-!
# Order books

A book keeps the price levels of its two sides, each with the ids of the orders
that rest there and the sum of their quantities. `erase_order` looks for the
order's id on the order's side and stops at the first level that has it.
-/

namespace MockExchange

structure PriceLevel where
  price : Nat
  priceFactor : Nat
  orderIds : Finset Nat
  totalCount : Nat
deriving DecidableEq

/-- `product` is the key of the order's product in the ledger, which its
`Product&` refers to. -/
structure ActiveOrder where
  product : Nat
  orderId : Nat
  unscaledPrice : Nat
  scalingFactor : Nat
  quantity : Nat
  isBid : Bool
deriving DecidableEq, Repr

structure Book where
  bids : List PriceLevel
  asks : List PriceLevel
deriving DecidableEq

/-- What becomes of a level that has the order: it is erased when the order's
quantity reaches its count. -/
def PriceLevel.reduce (level : PriceLevel) (order : ActiveOrder) : Option PriceLevel :=
  let level := { level with orderIds := level.orderIds.erase order.orderId }
  let qty := order.quantity
  if qty ≥ level.totalCount then none
  else some { level with totalCount := level.totalCount - qty }

/-- `remove_order_from_side`: whether the order was found, and the levels left. -/
def removeOrderFromSide : List PriceLevel → ActiveOrder → Bool × List PriceLevel
  | [], _ => (false, [])
  | level :: levels, order =>
    if order.orderId ∈ level.orderIds then (true, (level.reduce order).toList ++ levels)
    else
      let (found, levels) := removeOrderFromSide levels order
      (found, level :: levels)

namespace Book

def side (book : Book) (isBid : Bool) : List PriceLevel := if isBid then book.bids else book.asks

def eraseOrder (book : Book) (order : ActiveOrder) : Bool × Book :=
  if order.isBid then
    let (found, bids) := removeOrderFromSide book.bids order
    (found, { book with bids := bids })
  else
    let (found, asks) := removeOrderFromSide book.asks order
    (found, { book with asks := asks })

end Book

/-- In how many of the levels the id occurs. -/
def occurrences (levels : List PriceLevel) (id : Nat) : Nat :=
  levels.countP fun level => decide (id ∈ level.orderIds)

section

variable {levels before after : List PriceLevel} {level : PriceLevel} {order : ActiveOrder}
  {book : Book} {id : Nat}

@[simp] theorem occurrences_append :
    occurrences (before ++ after) id = occurrences before id + occurrences after id :=
  List.countP_append

@[simp] theorem occurrences_cons : occurrences (level :: levels) id =
    occurrences levels id + if id ∈ level.orderIds then 1 else 0 := by
  simp [occurrences, List.countP_cons]

theorem occurrences_eq_zero :
    occurrences levels id = 0 ↔ ∀ level ∈ levels, id ∉ level.orderIds := by
  simp [occurrences, List.countP_eq_zero]

/-! ### Erasing an order -/

theorem removeOrderFromSide_of_not_mem (h : ∀ level ∈ levels, order.orderId ∉ level.orderIds) :
    removeOrderFromSide levels order = (false, levels) := by
  induction levels with
  | nil => rfl
  | cons level levels ih =>
    have hrest := ih fun l hl => h l (List.mem_cons_of_mem _ hl)
    rw [removeOrderFromSide, if_neg (h level List.mem_cons_self), hrest]

/-- The first level that has the order is reduced, the others stay as they are. -/
theorem removeOrderFromSide_of_mem (h : ∃ level ∈ levels, order.orderId ∈ level.orderIds) :
    ∃ before level after, levels = before ++ level :: after ∧
      (∀ l ∈ before, order.orderId ∉ l.orderIds) ∧ order.orderId ∈ level.orderIds ∧
      removeOrderFromSide levels order =
        (true, before ++ ((level.reduce order).toList ++ after)) := by
  induction levels with
  | nil => simp at h
  | cons level levels ih =>
    by_cases hmem : order.orderId ∈ level.orderIds
    · refine ⟨[], level, levels, rfl, by simp, hmem, ?_⟩
      rw [removeOrderFromSide, if_pos hmem]
      rfl
    · have hrest : ∃ l ∈ levels, order.orderId ∈ l.orderIds := by
        obtain ⟨l, hl, hid⟩ := h
        rcases List.mem_cons.mp hl with rfl | hl
        · exact absurd hid hmem
        · exact ⟨l, hl, hid⟩
      obtain ⟨before, level', after, rfl, hbefore, hid, hremove⟩ := ih hrest
      refine ⟨level :: before, level', after, rfl, ?_, hid, ?_⟩
      · intro l hl
        rcases List.mem_cons.mp hl with rfl | hl
        · exact hmem
        · exact hbefore l hl
      · rw [removeOrderFromSide, if_neg hmem, hremove]
        rfl

theorem Book.eraseOrder_found :
    (book.eraseOrder order).1 = (removeOrderFromSide (book.side order.isBid) order).1 := by
  unfold eraseOrder side
  cases order.isBid <;> rfl

/-- The other side of the book stays as it is. -/
theorem Book.eraseOrder_side (isBid : Bool) : (book.eraseOrder order).2.side isBid =
    if isBid = order.isBid then (removeOrderFromSide (book.side isBid) order).2
    else book.side isBid := by
  unfold eraseOrder side
  cases order.isBid <;> cases isBid <;> rfl

theorem PriceLevel.reduce_eq (level : PriceLevel) (order : ActiveOrder) : level.reduce order =
    if level.totalCount ≤ order.quantity then none
    else some { level with
      orderIds := level.orderIds.erase order.orderId
      totalCount := level.totalCount - order.quantity } := rfl

end

end MockExchange
