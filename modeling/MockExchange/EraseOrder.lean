import MockExchange.Book
import Mathlib.Algebra.Order.BigOperators.Group.Finset
import Mathlib.Data.Nat.Cast.Order.Basic

/-!
# Erasing an order that the constructor built

The constructor of `ActiveOrder` takes a quantity and leaves the member of that
name out of its initialiser list, so `get_quantity` returns what the storage of
the object held before. `erase_order` compares this value with the count of the
level, which the order had raised by the quantity it was constructed with.
-/

namespace MockExchange

/-- The constructor of `ActiveOrder`, in storage where the bytes of the member
`quantity` hold `storage`. -/
def ActiveOrder.construct (storage product orderId price priceFactor _quantity : Nat)
    (isBid : Bool) : ActiveOrder where
  product := product
  orderId := orderId
  unscaledPrice := price
  scalingFactor := priceFactor
  quantity := storage
  isBid := isBid

/-- The levels of a side share no order, and each counts the positive quantities
its orders were constructed with. -/
structure Book.Exact (book : Book) (quantity : Bool → Nat → Nat) : Prop where
  disjoint : ∀ isBid, (book.side isBid).Pairwise fun a b => Disjoint a.orderIds b.orderIds
  positive : ∀ isBid, ∀ level ∈ book.side isBid, ∀ id ∈ level.orderIds, 0 < quantity isBid id
  total : ∀ isBid, ∀ level ∈ book.side isBid,
    level.totalCount = ∑ id ∈ level.orderIds, quantity isBid id

/-- A level without one of its orders: nothing, if that was its last one. -/
def PriceLevel.without (level : PriceLevel) (id quantity : Nat) : List PriceLevel :=
  if level.orderIds.erase id = ∅ then []
  else [{ level with
    orderIds := level.orderIds.erase id
    totalCount := level.totalCount - quantity }]

/-- An order that rests on its side is taken out of its level, and every other
order is not found. -/
structure Book.ErasesExactly (book : Book) (order : ActiveOrder) (quantity : Nat) : Prop where
  resting : ∀ before level after, book.side order.isBid = before ++ level :: after →
    order.orderId ∈ level.orderIds →
      (book.eraseOrder order).1 = true ∧
      (book.eraseOrder order).2.side order.isBid =
        before ++ (level.without order.orderId quantity ++ after) ∧
      (book.eraseOrder order).2.side (!order.isBid) = book.side (!order.isBid)
  missing : (∀ level ∈ book.side order.isBid, order.orderId ∉ level.orderIds) →
    book.eraseOrder order = (false, book)

section

variable {levels before after : List PriceLevel} {level : PriceLevel} {order : ActiveOrder}
  {book : Book} {quantity : Bool → Nat → Nat}

/-- The first level that has the order is the one that is reduced. -/
theorem removeOrderFromSide_append (after : List PriceLevel)
    (hbefore : ∀ l ∈ before, order.orderId ∉ l.orderIds) (hid : order.orderId ∈ level.orderIds) :
    removeOrderFromSide (before ++ level :: after) order =
      (true, before ++ ((level.reduce order).toList ++ after)) := by
  induction before with
  | nil =>
    rw [List.nil_append, removeOrderFromSide, if_pos hid]
    rfl
  | cons first before ih =>
    have hrest := ih fun l hl => hbefore l (List.mem_cons_of_mem _ hl)
    rw [List.cons_append, removeOrderFromSide, if_neg (hbefore first List.mem_cons_self), hrest]
    rfl

theorem Book.Exact.not_before (h : book.Exact quantity)
    (hside : book.side order.isBid = before ++ level :: after)
    (hid : order.orderId ∈ level.orderIds) : ∀ l ∈ before, order.orderId ∉ l.orderIds := by
  intro l hl hmem
  have hpairwise := h.disjoint order.isBid
  rw [hside, List.pairwise_append] at hpairwise
  have hdisjoint := hpairwise.2.2 l hl level List.mem_cons_self
  exact Finset.disjoint_left.mp hdisjoint hmem hid

theorem Book.eraseOrder_of_not_mem
    (h : ∀ level ∈ book.side order.isBid, order.orderId ∉ level.orderIds) :
    book.eraseOrder order = (false, book) := by
  have hremove := removeOrderFromSide_of_not_mem h
  unfold Book.side at hremove
  unfold Book.eraseOrder
  cases hbid : order.isBid with
  | true =>
    rw [hbid] at hremove
    simp only [if_true] at hremove ⊢
    rw [hremove]
  | false =>
    rw [hbid] at hremove
    simp only [Bool.false_eq_true, if_false] at hremove ⊢
    rw [hremove]

/-! ### The level of the order -/

theorem PriceLevel.erase_eq_empty_iff {id : Nat} (hid : id ∈ level.orderIds) :
    level.orderIds.erase id = ∅ ↔ level.orderIds = {id} := by
  rw [Finset.erase_eq_empty_iff]
  constructor
  · rintro (hempty | hsingle)
    · rw [hempty] at hid
      exact absurd hid (Finset.notMem_empty id)
    · exact hsingle
  · exact Or.inr

/-- The count test drops the level, and subtracts the quantity, as it should if
and only if the order holds its quantity or is alone and holds more. -/
theorem PriceLevel.reduce_eq_without_iff (order : ActiveOrder) (q : Nat → Nat)
    (hid : order.orderId ∈ level.orderIds)
    (htotal : level.totalCount = ∑ id ∈ level.orderIds, q id)
    (hpositive : ∀ id ∈ level.orderIds, 0 < q id) :
    (level.reduce order).toList = level.without order.orderId (q order.orderId) ↔
      order.quantity = q order.orderId ∨
        level.orderIds = {order.orderId} ∧ q order.orderId ≤ order.quantity := by
  have hsum := Finset.add_sum_erase level.orderIds q hid
  rw [← htotal] at hsum
  rw [← erase_eq_empty_iff hid, reduce_eq, without]
  by_cases hempty : level.orderIds.erase order.orderId = ∅
  · -- no other order: the count is the order's quantity
    rw [if_pos hempty]
    rw [hempty, Finset.sum_empty] at hsum
    by_cases hreached : level.totalCount ≤ order.quantity
    · rw [if_pos hreached]
      exact iff_of_true rfl (Or.inr ⟨hempty, by omega⟩)
    · rw [if_neg hreached]
      refine iff_of_false (List.cons_ne_nil _ _) ?_
      omega
  · -- the other orders have quantities, so the level stays
    rw [if_neg hempty]
    have hothers : 0 < ∑ id ∈ level.orderIds.erase order.orderId, q id :=
      Finset.sum_pos (fun id hother => hpositive id (Finset.mem_of_mem_erase hother))
        (Finset.nonempty_iff_ne_empty.mpr hempty)
    by_cases hreached : level.totalCount ≤ order.quantity
    · rw [if_pos hreached]
      refine iff_of_false (List.cons_ne_nil _ _).symm ?_
      rintro (hquantity | ⟨hnone, -⟩)
      · omega
      · exact hempty hnone
    · rw [if_neg hreached]
      constructor
      · intro hlevels
        have hlevel := List.singleton_inj.mp hlevels
        have hcount : level.totalCount - order.quantity =
            level.totalCount - q order.orderId := congrArg PriceLevel.totalCount hlevel
        omega
      · rintro (hquantity | ⟨hnone, -⟩)
        · rw [hquantity]
          rfl
        · exact absurd hnone hempty

/-! ### The whole side -/

/-- What `erase_order` leaves of the side of an order that rests on it. -/
theorem Book.Exact.eraseOrder (h : book.Exact quantity) (order : ActiveOrder)
    (hside : book.side order.isBid = before ++ level :: after)
    (hid : order.orderId ∈ level.orderIds) :
    (book.eraseOrder order).1 = true ∧
      (book.eraseOrder order).2.side order.isBid =
        before ++ ((level.reduce order).toList ++ after) ∧
      (book.eraseOrder order).2.side (!order.isBid) = book.side (!order.isBid) := by
  have hremove := removeOrderFromSide_append after (h.not_before hside hid) hid
  refine ⟨?_, ?_, ?_⟩
  · rw [Book.eraseOrder_found, hside, hremove]
  · rw [Book.eraseOrder_side, if_pos rfl, hside, hremove]
  · rw [Book.eraseOrder_side, if_neg (Bool.not_ne_self _)]

/-- An order is erased exactly if and only if the value in its storage is the
quantity it was constructed with, or reaches it where the order is the only one
of its level. -/
theorem eraseOrder_exact_iff (storage product orderId price priceFactor orderQuantity : Nat)
    (isBid : Bool) (h : book.Exact quantity)
    (hquantity : ∀ level ∈ book.side isBid, orderId ∈ level.orderIds →
      quantity isBid orderId = orderQuantity) :
    book.ErasesExactly
        (.construct storage product orderId price priceFactor orderQuantity isBid)
        orderQuantity ↔
      ∀ level ∈ book.side isBid, orderId ∈ level.orderIds →
        storage = orderQuantity ∨ level.orderIds = {orderId} ∧ orderQuantity ≤ storage := by
  let order : ActiveOrder :=
    .construct storage product orderId price priceFactor orderQuantity isBid
  have hlevel : ∀ level ∈ book.side isBid, orderId ∈ level.orderIds →
      ((level.reduce order).toList = level.without orderId orderQuantity ↔
        storage = orderQuantity ∨ level.orderIds = {orderId} ∧ orderQuantity ≤ storage) := by
    intro level hmem hid
    have hiff := PriceLevel.reduce_eq_without_iff order (quantity isBid) hid
      (h.total isBid level hmem) (h.positive isBid level hmem)
    rw [← hquantity level hmem hid]
    exact hiff
  constructor
  · intro hexact level hmem hid
    obtain ⟨before, after, hside⟩ := List.append_of_mem hmem
    have hleft := (hexact.resting before level after hside hid).2.1
    rw [(h.eraseOrder order hside hid).2.1] at hleft
    have hsame := List.append_cancel_right (List.append_cancel_left hleft)
    exact (hlevel level hmem hid).mp hsame
  · intro hcond
    refine ⟨?_, fun hmissing => Book.eraseOrder_of_not_mem hmissing⟩
    intro before level after hside hid
    have hmem : level ∈ book.side isBid := by
      rw [show book.side isBid = before ++ level :: after from hside]
      exact List.mem_append_right _ List.mem_cons_self
    obtain ⟨hfound, hleft, hopposite⟩ := h.eraseOrder order hside hid
    refine ⟨hfound, ?_, hopposite⟩
    rw [hleft, (hlevel level hmem hid).mpr (hcond level hmem hid)]
    rfl

end

/-! ### One level with two orders -/

/-- Orders 1 and 2, both of quantity 5. -/
def twoOrders : Book where
  bids := [⟨100, 2, {1, 2}, 10⟩]
  asks := []

theorem twoOrders_exact : twoOrders.Exact fun _ _ => 5 where
  disjoint := by decide
  positive := by decide
  total := by decide

/-- The storage happens to hold the order's quantity. -/
theorem eraseOrder_exact_lucky :
    twoOrders.ErasesExactly (.construct 5 0 1 100 2 5 true) 5 :=
  (eraseOrder_exact_iff 5 0 1 100 2 5 true twoOrders_exact (by decide)).mpr (by decide)

/-- In storage filled with zeros the level's count stays at 10. -/
theorem eraseOrder_not_exact : twoOrders.Exact (fun _ _ => 5) ∧
    ¬ twoOrders.ErasesExactly (.construct 0 0 1 100 2 5 true) 5 := by
  refine ⟨twoOrders_exact, ?_⟩
  intro hexact
  have hleft := (hexact.resting [] ⟨100, 2, {1, 2}, 10⟩ [] rfl (by decide)).2.1
  exact absurd hleft (by decide)

end MockExchange
