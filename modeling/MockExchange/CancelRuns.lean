import MockExchange.Ledger
import Mathlib.Data.Finset.SDiff

/-!
# Runs of cancels

A run of cancels, each over its order's own product, leaves the ledger without
the orders they name: which come first and which come twice makes no difference.
-/

namespace MockExchange

namespace Ledger

/-- What is left of a level without the orders `ids`. It is erased with its last
order. -/
def levelWithout (l : Ledger) (ids : Finset Nat) (level : PriceLevel) : Option PriceLevel :=
  let left := level.orderIds \ ids
  if left = ∅ ∧ level.orderIds ≠ ∅ then none
  else some { level with orderIds := left, totalCount := ∑ id ∈ left, l.quantity id }

def bookWithout (l : Ledger) (ids : Finset Nat) (book : Book) : Book where
  bids := book.bids.filterMap (l.levelWithout ids)
  asks := book.asks.filterMap (l.levelWithout ids)

/-- The ledger without the orders `ids`. -/
def without (l : Ledger) (ids : Finset Nat) : Ledger where
  products symbol := (l.products symbol).map fun product => ⟨l.bookWithout ids product.book⟩
  activeOrders id := if id ∈ ids then none else l.activeOrders id

/-- Every active order has a quantity. -/
def Positive (l : Ledger) : Prop :=
  ∀ id active, l.activeOrders id = some active → 0 < active.quantity

/-- The cancel names the order's own product, if there is such an order. -/
def NamesOwnProduct (l : Ledger) (order : CancelOrder) : Prop :=
  ∀ active, l.activeOrders order.orderId = some active → active.product = order.symbolId

/-- The orders that the cancels name. -/
def cancelled (cancels : List CancelOrder) : Finset Nat := (cancels.map CancelOrder.orderId).toFinset

section

variable {l : Ledger} {order : CancelOrder} {product : Product} {active : ActiveOrder}
  {ids ids' : Finset Nat} {level : PriceLevel}

/-! ### The ledger without some orders -/

theorem without_quantity {id : Nat} (hid : id ∉ ids) :
    (l.without ids).quantity id = l.quantity id := by
  simp only [quantity, without, if_neg hid]

theorem levelWithout_levelWithout (level : PriceLevel) :
    (l.levelWithout ids level).bind ((l.without ids).levelWithout ids') =
      l.levelWithout (ids ∪ ids') level := by
  have hsum : ∑ id ∈ (level.orderIds \ ids) \ ids', (l.without ids).quantity id =
      ∑ id ∈ (level.orderIds \ ids) \ ids', l.quantity id := by
    refine Finset.sum_congr rfl fun id hid => without_quantity ?_
    exact (Finset.mem_sdiff.mp (Finset.mem_sdiff.mp hid).1).2
  have hleft : level.orderIds \ (ids ∪ ids') = (level.orderIds \ ids) \ ids' :=
    (sdiff_sdiff_left).symm
  simp only [levelWithout, hleft]
  by_cases hgone : level.orderIds \ ids = ∅ ∧ level.orderIds ≠ ∅
  · rw [if_pos hgone, if_pos ⟨by rw [hgone.1]; exact Finset.empty_sdiff ids', hgone.2⟩]
    rfl
  · rw [if_neg hgone, Option.bind_some]
    simp only [levelWithout]
    rw [hsum]
    by_cases hempty : level.orderIds \ ids = ∅
    · have hnil : level.orderIds = ∅ := by
        by_contra hne
        exact hgone ⟨hempty, hne⟩
      simp [hnil]
    · have hne : level.orderIds ≠ ∅ := by
        rintro hnil
        rw [hnil] at hempty
        exact hempty (Finset.empty_sdiff ids)
      simp only [hempty, hne, ne_eq, not_false_eq_true, and_true]

theorem without_without (l : Ledger) (ids ids' : Finset Nat) :
    (l.without ids).without ids' = l.without (ids ∪ ids') := by
  have hbook : ∀ book, (l.without ids).bookWithout ids' (l.bookWithout ids book) =
      l.bookWithout (ids ∪ ids') book := by
    intro book
    simp only [bookWithout, List.filterMap_filterMap, levelWithout_levelWithout]
  have hproducts : ((l.without ids).without ids').products = (l.without (ids ∪ ids')).products := by
    funext symbol
    change Option.map _ (Option.map _ (l.products symbol)) = Option.map _ (l.products symbol)
    rw [Option.map_map]
    congr 1
    funext product
    exact congrArg Product.mk (hbook product.book)
  have horders : ((l.without ids).without ids').activeOrders =
      (l.without (ids ∪ ids')).activeOrders := by
    funext id
    simp only [without, Finset.mem_union]
    by_cases h : id ∈ ids <;> by_cases h' : id ∈ ids' <;> simp [h, h']
  rw [Ledger.mk.injEq]
  exact ⟨hproducts, horders⟩

/-! ### A cancel -/

/-- A level that has none of the orders stays as it is. -/
theorem levelWithout_of_disjoint (hdisjoint : Disjoint level.orderIds ids)
    (htotal : level.totalCount = ∑ id ∈ level.orderIds, l.quantity id) :
    l.levelWithout ids level = some level := by
  have hleft : level.orderIds \ ids = level.orderIds := hdisjoint.sdiff_eq_left
  rw [levelWithout, hleft, if_neg (fun h => h.2 h.1), ← htotal]

theorem Consistent.filterMap_levelWithout (hl : l.Consistent) {symbol : Nat} {old : Product}
    (hold : l.products symbol = some old) {isBid : Bool} {levels : List PriceLevel}
    (hsub : ∀ level ∈ levels, level ∈ old.book.side isBid) {id : Nat}
    (hnone : occurrences levels id = 0) : levels.filterMap (l.levelWithout {id}) = levels := by
  have hall : ∀ level ∈ levels, l.levelWithout {id} level = some level := by
    intro level hlevel
    refine levelWithout_of_disjoint ?_ (hl.totals symbol old hold isBid level (hsub level hlevel))
    exact Finset.disjoint_singleton_right.mpr (occurrences_eq_zero.mp hnone level hlevel)
  rw [List.filterMap_congr hall, List.filterMap_some]

/-- Two ledgers with the same sides of books and the same orders. -/
theorem ext_of_sides {l' : Ledger}
    (hsides : ∀ symbol, (l'.products symbol).map (fun product isBid => product.book.side isBid) =
      (l.products symbol).map (fun product isBid => product.book.side isBid))
    (horders : ∀ id, l'.activeOrders id = l.activeOrders id) : l' = l := by
  have hproducts : l'.products = l.products := by
    funext symbol
    have hside := hsides symbol
    cases hnew : l'.products symbol with
    | none =>
      rw [hnew, Option.map_none, eq_comm, Option.map_eq_none_iff] at hside
      exact hside.symm
    | some product' =>
      rw [hnew, Option.map_some, eq_comm, Option.map_eq_some_iff] at hside
      obtain ⟨product, hold, hsame⟩ := hside
      have hbids := congrFun hsame true
      have hasks := congrFun hsame false
      rw [hold]
      obtain ⟨⟨bids', asks'⟩⟩ := product'
      obtain ⟨⟨bids, asks⟩⟩ := product
      simp only [Book.side, if_true, Bool.false_eq_true, if_false] at hbids hasks
      rw [hbids, hasks]
  rw [Ledger.mk.injEq]
  exact ⟨hproducts, funext horders⟩

theorem bookWithout_side (book : Book) (isBid : Bool) :
    (l.bookWithout ids book).side isBid = (book.side isBid).filterMap (l.levelWithout ids) := by
  cases isBid <;> rfl

/-- A cancel of an order that is not active changes nothing. -/
theorem Consistent.without_inactive (hl : l.Consistent) {id : Nat}
    (hnone : l.activeOrders id = none) : l.without {id} = l := by
  refine ext_of_sides (fun symbol => ?_) fun other => ?_
  · simp only [without, Option.map_map]
    refine Option.map_congr fun old hold => funext fun isBid => ?_
    change (l.bookWithout {id} old.book).side isBid = old.book.side isBid
    rw [bookWithout_side]
    refine hl.filterMap_levelWithout hold (fun level hlevel => hlevel) ?_
    rw [hl.levels symbol old hold, placed, hnone]
  · simp only [without, Finset.mem_singleton]
    split
    · rename_i hid
      rw [hid, hnone]
    · rfl

theorem levelWithout_reduce (hl : l.Consistent) (h : l.Known order product active)
    {before after : List PriceLevel} (hloc : l.Located order product active before level after)
    (hpos : ∀ id ∈ level.orderIds, 0 < l.quantity id) :
    level.reduce active = l.levelWithout {order.orderId} level := by
  have hne : level.orderIds ≠ ∅ := Finset.ne_empty_of_mem hloc.mem
  have herase : level.orderIds \ {order.orderId} = level.orderIds.erase order.orderId :=
    Finset.sdiff_singleton_eq_erase _ _
  have hzero : l.others order level = 0 ↔ level.orderIds.erase order.orderId = ∅ := by
    rw [others, Finset.sum_eq_zero_iff]
    constructor
    · intro hall
      rw [Finset.eq_empty_iff_forall_notMem]
      intro id hid
      have hquantity := hpos id (Finset.mem_of_mem_erase hid)
      have := hall id hid
      omega
    · intro hempty
      rw [hempty]
      simp
  rw [hl.reduce_eq h hloc, levelWithout, herase]
  by_cases hnone : l.others order level = 0
  · rw [if_pos hnone, if_pos ⟨hzero.mp hnone, hne⟩]
  · rw [if_neg hnone, if_neg fun hboth => hnone (hzero.mpr hboth.1), others]

theorem Consistent.quantity_pos (hl : l.Consistent) (hpos : l.Positive) {symbol : Nat}
    (hproduct : l.products symbol = some product) {isBid : Bool}
    (hlevel : level ∈ product.book.side isBid) {id : Nat} (hid : id ∈ level.orderIds) :
    0 < l.quantity id := by
  have hcount := hl.levels symbol product hproduct isBid id
  cases hactive : l.activeOrders id with
  | none =>
    rw [placed, hactive] at hcount
    exact absurd hid (occurrences_eq_zero.mp hcount level hlevel)
  | some active =>
    rw [quantity, hactive]
    exact hpos id active hactive

theorem Consistent.process_side (hl : l.Consistent) (hpos : l.Positive)
    (h : l.Known order product active) (hown : active.product = order.symbolId) (isBid : Bool) :
    (product.book.eraseOrder active).2.side isBid =
      (product.book.side isBid).filterMap (l.levelWithout {order.orderId}) := by
  rw [Book.eraseOrder_side]
  split
  · rename_i hside
    subst hside
    obtain ⟨before, level, after, hloc⟩ := hl.located h hown
    have hmem : level ∈ product.book.side active.isBid := by rw [hloc.side]; simp
    have hsubBefore : ∀ x ∈ before, x ∈ product.book.side active.isBid := by
      rw [hloc.side]
      exact fun x hx => List.mem_append_left _ hx
    have hsubAfter : ∀ x ∈ after, x ∈ product.book.side active.isBid := by
      rw [hloc.side]
      exact fun x hx => List.mem_append_right _ (List.mem_cons_of_mem _ hx)
    have hbefore := hl.filterMap_levelWithout h.product hsubBefore hloc.not_before
    have hafter := hl.filterMap_levelWithout h.product hsubAfter hloc.not_after
    have hreduce := levelWithout_reduce hl h hloc
      (fun id hid => hl.quantity_pos hpos h.product hmem hid)
    rw [hloc.removed, hloc.side, List.filterMap_append, hbefore, List.filterMap_cons, ← hreduce,
      hafter]
    cases level.reduce active <;> rfl
  · rename_i hside
    refine (hl.filterMap_levelWithout h.product (fun level hlevel => hlevel) ?_).symm
    rw [hl.levels _ _ h.product, placed, h.active]
    exact if_neg fun hboth => hside hboth.2.symm

/-- A cancel over the order's own product takes the order out of the ledger. -/
theorem Consistent.process_eq_without (hl : l.Consistent) (hpos : l.Positive)
    (hown : l.NamesOwnProduct order) : l.processCancelOrder order = l.without {order.orderId} := by
  cases hactive : l.activeOrders order.orderId with
  | none => rw [processCancelOrder_unknown (Or.inr hactive), hl.without_inactive hactive]
  | some active =>
    have hsame := hown active hactive
    obtain ⟨product, hproduct⟩ := hl.product _ _ hactive
    rw [hsame] at hproduct
    have h : l.Known order product active := ⟨hproduct, hactive⟩
    refine ext_of_sides (fun symbol => ?_) fun id => ?_
    · rw [h.products]
      split
      · rename_i hsymbol
        subst hsymbol
        simp only [without, hproduct, Option.map_some, Option.some.injEq]
        funext isBid
        rw [bookWithout_side, hl.process_side hpos h hsame]
      · rename_i hsymbol
        simp only [without, Option.map_map]
        refine (Option.map_congr fun old hold => funext fun isBid => ?_).symm
        change (l.bookWithout {order.orderId} old.book).side isBid = old.book.side isBid
        rw [bookWithout_side]
        refine hl.filterMap_levelWithout hold (fun level hlevel => hlevel) ?_
        rw [hl.levels symbol old hold, placed, hactive]
        exact if_neg fun hboth => hsymbol (hboth.1.symm.trans hsame)
    · rw [h.activeOrders]
      simp only [without, Finset.mem_singleton]

/-- It leaves the ledger consistent. -/
theorem Consistent.process (hl : l.Consistent) (hpos : l.Positive)
    (hown : l.NamesOwnProduct order) : (l.processCancelOrder order).Consistent := by
  cases hactive : l.activeOrders order.orderId with
  | none =>
    rw [processCancelOrder_unknown (Or.inr hactive)]
    exact hl
  | some active =>
    have hsame := hown active hactive
    obtain ⟨product, hproduct⟩ := hl.product _ _ hactive
    rw [hsame] at hproduct
    have h : l.Known order product active := ⟨hproduct, hactive⟩
    obtain ⟨before, level, after, hloc⟩ := hl.located h hsame
    refine hloc.consistent hl h hsame (hloc.left_iff.mpr ?_)
    intro other hother hid
    by_cases hsingle : other.orderIds = {order.orderId}
    · exact Or.inl hsingle
    · obtain ⟨id, hmem, hne⟩ : ∃ id ∈ other.orderIds, id ≠ order.orderId := by
        by_contra hnone
        refine hsingle (Finset.eq_singleton_iff_unique_mem.mpr ⟨hid, fun id hmem => ?_⟩)
        by_contra hne
        exact hnone ⟨id, hmem, hne⟩
      exact Or.inr ⟨id, hmem, hne, hl.quantity_pos hpos hproduct hother hmem⟩

theorem Positive.without (hpos : l.Positive) (ids : Finset Nat) : (l.without ids).Positive := by
  intro id active hactive
  simp only [Ledger.without] at hactive
  split at hactive
  · cases hactive
  · exact hpos id active hactive

theorem NamesOwnProduct.without (hown : l.NamesOwnProduct order) (ids : Finset Nat) :
    (l.without ids).NamesOwnProduct order := by
  intro active hactive
  simp only [Ledger.without] at hactive
  split at hactive
  · cases hactive
  · exact hown active hactive

/-- Without no orders a consistent ledger is as it was. -/
theorem Consistent.without_empty (hl : l.Consistent) : l.without ∅ = l := by
  refine ext_of_sides (fun symbol => ?_) fun id => ?_
  · simp only [without, Option.map_map]
    refine Option.map_congr fun old hold => funext fun isBid => ?_
    change (l.bookWithout ∅ old.book).side isBid = old.book.side isBid
    have hall : ∀ level ∈ old.book.side isBid, l.levelWithout ∅ level = some level :=
      fun level hlevel => levelWithout_of_disjoint (Finset.disjoint_empty_right _)
        (hl.totals symbol old hold isBid level hlevel)
    rw [bookWithout_side, List.filterMap_congr hall, List.filterMap_some]
  · simp [without]

/-- **A run of cancels leaves the other orders.** The ledger it ends in is
determined by which orders the cancels name, not by their order or number. -/
theorem cancel_run (hl : l.Consistent) (hpos : l.Positive) (cancels : List CancelOrder)
    (hown : ∀ order ∈ cancels, l.NamesOwnProduct order) :
    cancels.foldl processCancelOrder l = l.without (cancelled cancels) ∧
      (l.without (cancelled cancels)).Consistent := by
  induction cancels generalizing l with
  | nil =>
    have hnone : l.without (cancelled []) = l := hl.without_empty
    rw [hnone]
    exact ⟨rfl, hl⟩
  | cons order cancels ih =>
    have hfirst := hown order List.mem_cons_self
    have hstep := hl.process_eq_without hpos hfirst
    have hconsistent := hl.process hpos hfirst
    rw [hstep] at hconsistent
    have hrest : ∀ other ∈ cancels, (l.without {order.orderId}).NamesOwnProduct other :=
      fun other hother => (hown other (List.mem_cons_of_mem _ hother)).without _
    obtain ⟨hrun, hend⟩ := ih hconsistent (hpos.without _) hrest
    have hids : cancelled (order :: cancels) = {order.orderId} ∪ cancelled cancels := by
      rw [cancelled, List.map_cons, List.toFinset_cons, Finset.insert_eq]
      rfl
    rw [without_without, ← hids] at hrun hend
    rw [List.foldl_cons, hstep]
    exact ⟨hrun, hend⟩

end

/-- One of two orders is cancelled twice, with a cancel of an unknown order in
between; the other stays at its price. -/
theorem cancel_run_twice :
    [⟨7, 1⟩, ⟨9, 2⟩, ⟨7, 1⟩].foldl processCancelOrder twoOrders = twoOrders.without {7, 9} ∧
      (twoOrders.without {7, 9}).products 1 = some ⟨⟨[⟨100, 0, {8}, 3⟩], []⟩⟩ := by
  have hpos : twoOrders.Positive := fun id active hactive =>
    (twoOrders_active hactive).2.2.2.2
  have hown : ∀ order ∈ [(⟨7, 1⟩ : CancelOrder), ⟨9, 2⟩, ⟨7, 1⟩],
      twoOrders.NamesOwnProduct order := by
    intro order horder active hactive
    obtain ⟨hid, -, hproduct, -⟩ := twoOrders_active hactive
    simp only [List.mem_cons, List.not_mem_nil, or_false] at horder
    rcases horder with rfl | rfl | rfl
    · exact hproduct
    · simp at hid
    · exact hproduct
  have hids : cancelled [⟨7, 1⟩, ⟨9, 2⟩, ⟨7, 1⟩] = {7, 9} := by decide
  obtain ⟨hrun, -⟩ := cancel_run twoOrders_consistent hpos _ hown
  rw [hids] at hrun
  exact ⟨hrun, by decide +kernel⟩

end Ledger

end MockExchange
