import Qsl.PriorityInvariant
import Mathlib.Data.List.Dedup

namespace Qsl

open List

/-- One mutating call on an order book. -/
inductive BookOp where
  | addLimit (id : OrderId) (side : Side) (price : Price) (quantity : Quantity) (tif : TimeInForce)
  | addMarket (id : OrderId) (side : Side) (quantity : Quantity)
  | cancel (id : OrderId)
  | modify (id : OrderId) (newPrice : Price) (newQuantity : Quantity)
  deriving DecidableEq, Repr

/-- The order a call is about. -/
def BookOp.id : BookOp → OrderId
  | .addLimit id .. => id
  | .addMarket id .. => id
  | .cancel id => id
  | .modify id .. => id

/-- What such a call returns. -/
inductive BookReply where
  | traded (trades : List Trade)
  | cancelled (found : Bool)
  deriving DecidableEq, Repr

/-- The answers of every const member of the book at one moment. -/
@[ext] structure Observation where
  restingOrders : List Order
  orderCount : Nat
  contains : OrderId → Bool
  bestBid : Option Price
  bestAsk : Option Price
  quantityAt : Side → Price → QuantityTotal
  bidLevels : List LevelView
  askLevels : List LevelView
  fillCount : Side → Price → Bool → Quantity → Nat

/-- Sum of quantities in the 64-bit total the book reports. -/
def totalQuantity (orders : List Order) : QuantityTotal :=
  (orders.map (fun order => order.quantity.toUInt64)).sum

theorem totalQuantity_mod (orders : List Order) :
    (totalQuantity orders).toNat =
      (orders.map (fun order => order.quantity.toNat)).sum % 2 ^ 64 := by
  induction orders with
  | nil => rfl
  | cons order orders ih =>
    rw [totalQuantity, map_cons, sum_cons, UInt64.toNat_add, map_cons,
      sum_cons]
    change (_ + (totalQuantity orders).toNat) % _ = _
    rw [ih, UInt32.toNat_toUInt64, Nat.add_mod_mod]

/-- Below 2^32 orders the reported total is the true sum: no wrap-around. -/
theorem totalQuantity_toNat (orders : List Order) (few : orders.length < 2 ^ 32) :
    (totalQuantity orders).toNat = (orders.map (fun order => order.quantity.toNat)).sum := by
  have bounded : ∀ others : List Order,
      (others.map (fun order => order.quantity.toNat)).sum ≤ others.length * (2 ^ 32 - 1) := by
    intro others
    induction others with
    | nil => exact Nat.le_refl _
    | cons order others ih =>
      have small := order.quantity.toNat_lt
      rw [map_cons, sum_cons, length_cons]
      omega
  have total := bounded orders
  rw [totalQuantity_mod, Nat.mod_eq_of_lt]
  omega

theorem totalQuantity_foldl (orders : List Order) (start : QuantityTotal) :
    orders.foldl (fun total order => total + order.quantity.toUInt64) start =
      start + totalQuantity orders := by
  induction orders generalizing start with
  | nil => exact (UInt64.add_zero start).symm
  | cons order orders ih =>
    rw [foldl_cons, ih, UInt64.add_assoc]
    rfl

namespace Book

def apply (book : Book) : BookOp → Book × BookReply
  | .addLimit id side price quantity tif =>
    let (after, trades) := book.addLimit id side price quantity tif
    (after, .traded trades)
  | .addMarket id side quantity =>
    let (after, trades) := book.addMarket id side quantity
    (after, .traded trades)
  | .cancel id =>
    let (after, found) := book.cancel id
    (after, .cancelled found)
  | .modify id newPrice newQuantity =>
    let (after, trades) := book.modify id newPrice newQuantity
    (after, .traded trades)

theorem WellFormed.apply {book : Book} (valid : book.WellFormed) (op : BookOp) :
    (book.apply op).1.WellFormed := by
  cases op with
  | addLimit id side price quantity tif => exact valid.addLimit id side price quantity tif
  | addMarket id side quantity => exact valid.addMarket id side quantity
  | cancel id => exact valid.cancel id
  | modify id newPrice newQuantity => exact valid.modify id newPrice newQuantity

/-- Price of the order with the highest priority. -/
def bestPrice (book : Book) (side : Side) : Option Price := (book.side side).head?.map Order.price

def quantityAt (book : Book) (side : Side) (price : Price) : QuantityTotal :=
  totalQuantity ((book.side side).filter (fun order => order.price = price))

/-- The occupied prices, best first, with their totals. -/
def levelViews (book : Book) (side : Side) : List LevelView :=
  ((book.side side).map Order.price).dedup.map (fun price => ⟨price, book.quantityAt side price⟩)

/-- Trades an incoming order would make. -/
def fillCount (book : Book) (takerSide : Side) (limit : Price) (isMarket : Bool)
    (quantity : Quantity) : Nat :=
  (book.matchTaker ⟨0, takerSide, limit, isMarket⟩ quantity).trades.length

def observe (book : Book) : Observation where
  restingOrders := book.restingOrders
  orderCount := book.restingOrders.length
  contains := book.contains
  bestBid := book.bestPrice .buy
  bestAsk := book.bestPrice .sell
  quantityAt := book.quantityAt
  bidLevels := book.levelViews .buy
  askLevels := book.levelViews .sell
  fillCount := book.fillCount

end Book

/-- Every answer computed from the resting orders alone. -/
structure Observation.From (seen : Observation) (orders : List Order) : Prop where
  restingOrders : seen.restingOrders = orders
  orderCount : seen.orderCount = orders.length
  contains : ∀ id, seen.contains id = true ↔ ∃ order ∈ orders, order.id = id
  bestBid : ∀ price, seen.bestBid = some price ↔
    (∃ order ∈ orders, order.side = .buy ∧ order.price = price) ∧
      ∀ order ∈ orders, order.side = .buy → order.price ≤ price
  bestAsk : ∀ price, seen.bestAsk = some price ↔
    (∃ order ∈ orders, order.side = .sell ∧ order.price = price) ∧
      ∀ order ∈ orders, order.side = .sell → price ≤ order.price
  quantityAt : ∀ side price, seen.quantityAt side price =
    totalQuantity (orders.filter (fun order => order.side = side ∧ order.price = price))
  bidLevels : ∀ view, view ∈ seen.bidLevels ↔
    (∃ order ∈ orders, order.side = .buy ∧ order.price = view.price) ∧
      view.quantity = seen.quantityAt .buy view.price
  bidsBestFirst : (seen.bidLevels.map LevelView.price).Pairwise (fun a b => b < a)
  askLevels : ∀ view, view ∈ seen.askLevels ↔
    (∃ order ∈ orders, order.side = .sell ∧ order.price = view.price) ∧
      view.quantity = seen.quantityAt .sell view.price
  asksBestFirst : (seen.askLevels.map LevelView.price).Pairwise (fun a b => a < b)
  fillCount : ∀ takerSide limit isMarket quantity,
    seen.fillCount takerSide limit isMarket quantity =
      (sweep ⟨0, takerSide, limit, isMarket⟩
        (orders.filter (fun order => order.side = takerSide.opposite)) quantity).trades.length

namespace Book

section Observe

variable {book : Book}

section

variable (valid : book.WellFormed)

include valid

theorem WellFormed.side_filter (side : Side) :
    book.restingOrders.filter (fun order => order.side = side) = book.side side := by
  have own : (book.side side).filter (fun order => order.side = side) = book.side side := by
    apply filter_eq_self.mpr
    intro order member
    exact decide_eq_true (valid.sided side order member)
  have other : (book.side side.opposite).filter (fun order => order.side = side) = [] := by
    apply filter_eq_nil_iff.mpr
    intro order member hit
    rw [valid.sided side.opposite order member] at hit
    exact side.opposite_ne (of_decide_eq_true hit)
  rw [restingOrders, filter_append]
  cases side
  · exact (congrArg₂ (· ++ ·) own other).trans (append_nil _)
  · exact congrArg₂ (· ++ ·) other own

theorem WellFormed.mem_side {side : Side} {order : Order} :
    order ∈ book.side side ↔ order ∈ book.restingOrders ∧ order.side = side := by
  rw [← valid.side_filter side, mem_filter, decide_eq_true_iff]

/-- The best price is the extreme one: no order on the side has a better price. -/
theorem WellFormed.bestPrice_eq_some (side : Side) (price : Price) :
    book.bestPrice side = some price ↔
      (∃ order ∈ book.side side, order.price = price) ∧
        ∀ order ∈ book.side side, ¬ Better side order.price price := by
  have sorted := valid.sorted side
  rw [bestPrice]
  cases shape : book.side side with
  | nil => simp
  | cons first rest =>
    rw [shape, pairwise_cons] at sorted
    rw [head?_cons, Option.map_some, Option.some_inj]
    constructor
    · intro same
      refine ⟨⟨first, mem_cons_self, same⟩, ?_⟩
      intro order member
      rw [← same]
      rcases mem_cons.mp member with equal | later
      · rw [equal]
        exact irrefl _
      · exact sorted.1 order later
    · intro ⟨⟨order, member, same⟩, best⟩
      have notWorse := best first mem_cons_self
      rcases mem_cons.mp member with equal | later
      · rw [← equal, same]
      · have notBetter := sorted.1 order later
        rw [same] at notBetter
        exact OrderedMap.eq_of_not_lt notWorse notBetter

theorem WellFormed.prices_sorted (side : Side) :
    ((book.side side).map Order.price).dedup.Pairwise (Better side) := by
  have weak : ((book.side side).map Order.price).Pairwise (fun a b => ¬ Better side b a) :=
    pairwise_map.mpr (valid.sorted side)
  have kept := weak.sublist (dedup_sublist _)
  apply (kept.and (nodup_dedup _)).imp
  intro a b ⟨notBetter, differ⟩
  by_contra notWorse
  exact differ (OrderedMap.eq_of_not_lt notWorse notBetter)

/-- A strictly best-first list of the occupied prices is the list of levels. -/
theorem WellFormed.prices_eq {side : Side} {prices : List Price}
    (sorted : prices.Pairwise (Better side))
    (occupied : ∀ price, price ∈ prices ↔ ∃ order ∈ book.side side, order.price = price) :
    ((book.side side).map Order.price).dedup = prices := by
  have own := valid.prices_sorted side
  have distinct : prices.Nodup := by
    apply sorted.imp
    intro a b better same
    rw [same] at better
    exact irrefl _ better
  have same : ((book.side side).map Order.price).dedup.Perm prices := by
    apply (perm_ext_iff_of_nodup (nodup_dedup _) distinct).mpr
    intro price
    rw [mem_dedup, mem_map, occupied]
  exact same.eq_of_pairwise (fun a b _ _ ab ba => absurd ba (asymm ab)) own sorted

end

theorem levelViews_prices (side : Side) :
    (book.levelViews side).map LevelView.price = ((book.side side).map Order.price).dedup := by
  rw [levelViews, map_map]
  exact map_id _

theorem WellFormed.mem_levelViews (valid : book.WellFormed) (side : Side) (view : LevelView) :
    view ∈ book.levelViews side ↔
      (∃ order ∈ book.restingOrders, order.side = side ∧ order.price = view.price) ∧
        view.quantity = book.quantityAt side view.price := by
  rw [levelViews, mem_map]
  constructor
  · intro ⟨price, listed, same⟩
    obtain ⟨order, member, priced⟩ := mem_map.mp (mem_dedup.mp listed)
    have resting := valid.mem_side.mp member
    subst same
    exact ⟨⟨order, resting.1, resting.2, priced⟩, rfl⟩
  · intro ⟨⟨order, resting, sided, priced⟩, total⟩
    refine ⟨view.price, ?_, ?_⟩
    · rw [mem_dedup, ← priced]
      exact mem_map_of_mem (valid.mem_side.mpr ⟨resting, sided⟩)
    · rw [← total]

/-- A well-formed book answers everything from its resting orders. -/
theorem WellFormed.observe_from (valid : book.WellFormed) :
    book.observe.From book.restingOrders where
  restingOrders := rfl
  orderCount := rfl
  contains := by
    intro id
    exact contains_iff.trans mem_map
  bestBid := by
    intro price
    simp only [observe, valid.bestPrice_eq_some, valid.mem_side, Better, Int64.not_lt, and_assoc,
      and_imp]
  bestAsk := by
    intro price
    simp only [observe, valid.bestPrice_eq_some, valid.mem_side, Better, Int64.not_lt, and_assoc,
      and_imp]
  quantityAt := by
    intro side price
    simp only [observe, quantityAt, ← valid.side_filter side, filter_filter]
    congr 2
    funext order
    simp [and_comm]
  bidLevels := valid.mem_levelViews .buy
  bidsBestFirst := by
    have sorted := valid.prices_sorted .buy
    rwa [← levelViews_prices] at sorted
  askLevels := valid.mem_levelViews .sell
  asksBestFirst := by
    have sorted := valid.prices_sorted .sell
    rwa [← levelViews_prices] at sorted
  fillCount := by
    intro takerSide limit isMarket quantity
    rw [valid.side_filter]
    rfl

end Observe

end Book

end Qsl
