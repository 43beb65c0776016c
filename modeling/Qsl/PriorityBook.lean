import Qsl.PrioritySweep

namespace Qsl

open List

/-- The book as what it is for: both sides in priority order. -/
@[ext] structure Book where
  bids : List Order
  asks : List Order
  deriving DecidableEq, Repr

namespace Book

variable {book : Book} {id : OrderId}

def empty : Book := ⟨[], []⟩

def side (book : Book) : Side → List Order
  | .buy => book.bids
  | .sell => book.asks

def setSide (book : Book) (side : Side) (orders : List Order) : Book :=
  match side with
  | .buy => { book with bids := orders }
  | .sell => { book with asks := orders }

@[simp] theorem setSide_same (book : Book) (side : Side) (orders : List Order) :
    (book.setSide side orders).side side = orders := by
  cases side <;> rfl

@[simp] theorem setSide_opposite (book : Book) (side : Side) (orders : List Order) :
    (book.setSide side orders).side side.opposite = book.side side.opposite := by
  cases side <;> rfl

@[simp] theorem setSide_other (book : Book) (side : Side) (orders : List Order) :
    (book.setSide side.opposite orders).side side = book.side side := by
  cases side <;> rfl

theorem eq_of_side {book other : Book} (same : ∀ side, book.side side = other.side side) :
    book = other :=
  Book.ext (same .buy) (same .sell)

/-- Bids, then asks, each in priority order. -/
def restingOrders (book : Book) : List Order := book.bids ++ book.asks

def find? (book : Book) (id : OrderId) : Option Order :=
  book.restingOrders.find? (fun order => order.id = id)

def contains (book : Book) (id : OrderId) : Bool :=
  book.restingOrders.any (fun order => order.id = id)

/-- Queue an order behind every order of its side with an equal or better price. -/
def rest (book : Book) (order : Order) : Book :=
  book.setSide order.side
    ((book.side order.side).orderedInsert
      (fun a b => Better order.side a.price b.price) order)

/-- Sweep the side opposite the taker. -/
def matchTaker (book : Book) (taker : Taker) (quantity : Quantity) : Sweep :=
  sweep taker (book.side taker.side.opposite) quantity

def addLimit (book : Book) (id : OrderId) (side : Side) (price : Price) (quantity : Quantity)
    (tif : TimeInForce) : Book × List Trade :=
  if book.contains id then (book, [])
  else
    let swept := book.matchTaker ⟨id, side, price, false⟩ quantity
    let crossed := book.setSide side.opposite swept.left
    if swept.remaining ≠ 0 ∧ tif = .gtc then
      (crossed.rest ⟨id, side, price, swept.remaining⟩, swept.trades)
    else (crossed, swept.trades)

def addMarket (book : Book) (id : OrderId) (side : Side) (quantity : Quantity) :
    Book × List Trade :=
  if book.contains id then (book, [])
  else
    let swept := book.matchTaker ⟨id, side, 0, true⟩ quantity
    (book.setSide side.opposite swept.left, swept.trades)

def remove (book : Book) (id : OrderId) : Book :=
  ⟨book.bids.filter (fun order => order.id ≠ id), book.asks.filter (fun order => order.id ≠ id)⟩

def cancel (book : Book) (id : OrderId) : Book × Bool :=
  if book.contains id then (book.remove id, true) else (book, false)

/-- Replace the quantity of one order, keeping its place. -/
def reduce (id : OrderId) (quantity : Quantity) (order : Order) : Order :=
  if order.id = id then { order with quantity := quantity } else order

def setQuantity (book : Book) (id : OrderId) (quantity : Quantity) : Book :=
  ⟨book.bids.map (reduce id quantity), book.asks.map (reduce id quantity)⟩

def modify (book : Book) (id : OrderId) (newPrice : Price) (newQuantity : Quantity) :
    Book × List Trade :=
  match book.find? id with
  | none => (book, [])
  | some order =>
    if newQuantity = 0 then (book.remove id, [])
    else if newPrice = order.price ∧ newQuantity ≤ order.quantity then
      (book.setQuantity id newQuantity, [])
    else (book.remove id).addLimit id order.side newPrice newQuantity .gtc

/-- Identities are unique, quantities positive, each side is in priority order
and no bid reaches an ask. -/
structure WellFormed (book : Book) : Prop where
  sided : ∀ side, ∀ order ∈ book.side side, order.side = side
  positive : ∀ side, ∀ order ∈ book.side side, 0 < order.quantity
  sorted : ∀ side, (book.side side).Pairwise (fun a b => ¬ Better side b.price a.price)
  unique : (book.restingOrders.map Order.id).Nodup
  uncrossed : ∀ bid ∈ book.bids, ∀ ask ∈ book.asks, bid.price < ask.price

theorem wellFormed_empty : WellFormed empty where
  sided := by intro side order member; cases side <;> cases member
  positive := by intro side order member; cases side <;> cases member
  sorted := by intro side; cases side <;> exact List.Pairwise.nil
  unique := nodup_nil
  uncrossed := by intro bid member; cases member

theorem mem_restingOrders {order : Order} :
    order ∈ book.restingOrders ↔ ∃ side, order ∈ book.side side := by
  rw [restingOrders, mem_append]
  constructor
  · rintro (bid | ask)
    · exact ⟨.buy, bid⟩
    · exact ⟨.sell, ask⟩
  · rintro ⟨side, member⟩
    cases side
    · exact Or.inl member
    · exact Or.inr member

theorem contains_iff : book.contains id = true ↔ id ∈ book.restingOrders.map Order.id := by
  simp [contains]

theorem contains_false_iff :
    book.contains id = false ↔ ∀ side, ∀ order ∈ book.side side, order.id ≠ id := by
  rw [← Bool.not_eq_true, contains_iff]
  constructor
  · intro absent side order member same
    exact absent (mem_map.mpr ⟨order, mem_restingOrders.mpr ⟨side, member⟩, same⟩)
  · intro absent member
    obtain ⟨order, resting, same⟩ := mem_map.mp member
    obtain ⟨side, inside⟩ := mem_restingOrders.mp resting
    exact absent side order inside same

theorem unique_iff :
    (book.restingOrders.map Order.id).Nodup ↔
      (∀ side, ((book.side side).map Order.id).Nodup) ∧
        ∀ bid ∈ book.bids, ∀ ask ∈ book.asks, bid.id ≠ ask.id := by
  rw [restingOrders, map_append, nodup_append]
  constructor
  · rintro ⟨bids, asks, apart⟩
    refine ⟨fun side => by cases side <;> assumption, ?_⟩
    intro bid inBids ask inAsks
    exact apart _ (mem_map_of_mem inBids) _ (mem_map_of_mem inAsks)
  · rintro ⟨sides, apart⟩
    refine ⟨sides .buy, sides .sell, ?_⟩
    intro a inBids b inAsks
    obtain ⟨bid, bidMember, rfl⟩ := mem_map.mp inBids
    obtain ⟨ask, askMember, rfl⟩ := mem_map.mp inAsks
    exact apart bid bidMember ask askMember

theorem find?_of_only {α : Type} {hit : α → Bool} {xs : List α} {x : α} (member : x ∈ xs)
    (found : hit x = true) (only : ∀ y ∈ xs, hit y = true → y = x) : xs.find? hit = some x := by
  cases search : xs.find? hit with
  | none => exact absurd found (List.find?_eq_none.mp search x member)
  | some y =>
    have same := only y (mem_of_find?_eq_some search) (List.find?_some search)
    rw [same]

theorem find?_eq_some (unique : (book.restingOrders.map Order.id).Nodup) {order : Order} :
    book.find? id = some order ↔ order ∈ book.restingOrders ∧ order.id = id := by
  constructor
  · intro found
    have hit := List.find?_some found
    exact ⟨mem_of_find?_eq_some found, of_decide_eq_true hit⟩
  · intro ⟨member, same⟩
    apply find?_of_only member (decide_eq_true same)
    intro other inside hit
    have ids : other.id = order.id := (of_decide_eq_true hit).trans same.symm
    exact inj_on_of_nodup_map unique inside member ids

theorem find?_eq_none : book.find? id = none ↔ book.contains id = false := by
  rw [find?, List.find?_eq_none, contains, any_eq_false]

/-- The uncrossed condition read from either side. -/
theorem uncrossed_iff :
    (∀ bid ∈ book.bids, ∀ ask ∈ book.asks, bid.price < ask.price) ↔
      ∀ side, ∀ own ∈ book.side side, ∀ other ∈ book.side side.opposite,
        Better side.opposite own.price other.price := by
  constructor
  · intro apart side own inOwn other inOther
    cases side
    · exact apart own inOwn other inOther
    · exact apart other inOther own inOwn
  · intro apart bid inBids ask inAsks
    exact apart .buy bid inBids ask inAsks

end Book

end Qsl
