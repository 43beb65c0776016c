import Qsl.ContiguousBook
import Qsl.IntrusiveBook

namespace Qsl

/-- The storage modes of `OrderBook::Storage`. -/
inductive Storage where
  | baseline
  | pooled
  | intrusivePooled
  | contiguous
  deriving DecidableEq, Repr

/-- The book behind `dispatch_storage`. The pooled mode only changes where the nodes of
the baseline containers are allocated. -/
inductive OrderBook where
  | baseline (store : BaselineStore)
  | intrusive (store : IntrusiveStore)
  | contiguous (store : ContiguousStore)

namespace OrderBook

def new : Storage → OrderBook
  | .baseline => .baseline .empty
  | .pooled => .baseline .empty
  | .intrusivePooled => .intrusive (.empty IntrusiveStore.intrusivePoolCapacity)
  | .contiguous => .contiguous .empty

def addLimit (book : OrderBook) (id : OrderId) (side : Side) (price : Price) (quantity : Quantity)
    (tif : TimeInForce) : OrderBook × List Trade :=
  match book with
  | .baseline store =>
    let (after, trades) := store.addLimit id side price quantity tif
    (.baseline after, trades)
  | .intrusive store =>
    let (after, trades) := store.addLimit ⟨id, side, price, quantity, tif⟩
    (.intrusive after, trades)
  | .contiguous store =>
    let (after, trades) := store.addLimit ⟨id, side, price, quantity, tif⟩
    (.contiguous after, trades)

def addMarket (book : OrderBook) (id : OrderId) (side : Side) (quantity : Quantity) :
    OrderBook × List Trade :=
  match book with
  | .baseline store =>
    let (after, trades) := store.addMarket id side quantity
    (.baseline after, trades)
  | .intrusive store =>
    let (after, trades) := store.addMarket id side quantity
    (.intrusive after, trades)
  | .contiguous store =>
    let (after, trades) := store.addMarket id side quantity
    (.contiguous after, trades)

def cancel (book : OrderBook) (id : OrderId) : OrderBook × Bool :=
  match book with
  | .baseline store =>
    let (after, found) := store.cancel id
    (.baseline after, found)
  | .intrusive store =>
    let (after, found) := store.cancel id
    (.intrusive after, found)
  | .contiguous store =>
    let (after, found) := store.cancel id
    (.contiguous after, found)

def modify (book : OrderBook) (id : OrderId) (newPrice : Price) (newQuantity : Quantity) :
    OrderBook × List Trade :=
  match book with
  | .baseline store =>
    let (after, trades) := store.modify id newPrice newQuantity
    (.baseline after, trades)
  | .intrusive store =>
    let (after, trades) := store.modify id newPrice newQuantity
    (.intrusive after, trades)
  | .contiguous store =>
    let (after, trades) := store.modify id newPrice newQuantity
    (.contiguous after, trades)

/-- The const members, each asked of the storage in use. -/
def observe : OrderBook → Observation
  | .baseline store => store.observe
  | .intrusive store => store.observe
  | .contiguous store => store.observe

def bestBid (book : OrderBook) : Option Price := book.observe.bestBid

def bestAsk (book : OrderBook) : Option Price := book.observe.bestAsk

def quantityAt (book : OrderBook) : Side → Price → QuantityTotal := book.observe.quantityAt

def orderCount (book : OrderBook) : Nat := book.observe.orderCount

def contains (book : OrderBook) : OrderId → Bool := book.observe.contains

def fillCount (book : OrderBook) : Side → Price → Bool → Quantity → Nat := book.observe.fillCount

def bidLevels (book : OrderBook) : List LevelView := book.observe.bidLevels

def askLevels (book : OrderBook) : List LevelView := book.observe.askLevels

def restingOrders (book : OrderBook) : List Order := book.observe.restingOrders

def canStoreLimit (book : OrderBook) (side : Side) (price : Price) (quantity : Quantity)
    (tif : TimeInForce) : Bool :=
  match book with
  | .baseline _ => true
  | .intrusive store => store.canStoreLimit side price quantity tif
  | .contiguous store => store.canStoreLimit side price quantity tif

/-- Only the contiguous band can turn a modify down. -/
def canApplyModify (book : OrderBook) (id : OrderId) (newPrice : Price) (newQuantity : Quantity) :
    Bool :=
  match book with
  | .baseline _ => true
  | .intrusive _ => true
  | .contiguous store => store.canApplyModify id newPrice newQuantity

def view : OrderBook → Book
  | .baseline store => store.view
  | .intrusive store => store.view
  | .contiguous store => store.view

def Valid : OrderBook → Prop
  | .baseline store => store.Valid
  | .intrusive store => IntrusiveStore.Valid IntrusiveStore.intrusivePoolCapacity store
  | .contiguous store => store.Valid

theorem valid_new (storage : Storage) : (new storage).Valid := by
  cases storage with
  | intrusivePooled => exact IntrusiveStore.valid_empty _
  | contiguous => exact ContiguousStore.valid_empty
  | _ => exact BaselineStore.valid_empty

theorem view_new (storage : Storage) : (new storage).view = Book.empty := by
  cases storage with
  | contiguous => exact ContiguousStore.view_empty
  | _ => rfl

section Calls

variable {book : OrderBook} (valid : book.Valid)

include valid

theorem Valid.wellFormed : book.view.WellFormed := by
  cases book with
  | baseline store => exact BaselineStore.refines.book store valid
  | intrusive store => exact (IntrusiveStore.refines _).book store valid
  | contiguous store => exact ContiguousStore.refines.book store valid

/-- Every observer answers as the priority book does, whatever the storage. -/
theorem Valid.observe_eq : book.observe = book.view.observe := by
  cases book with
  | baseline store => exact BaselineStore.Valid.observe_eq valid
  | intrusive store => exact IntrusiveStore.Valid.observe_eq valid
  | contiguous store => exact ContiguousStore.Valid.observe_eq valid

theorem Valid.contains_eq (id : OrderId) : book.contains id = book.view.contains id := by
  rw [contains, valid.observe_eq]
  rfl

/-- A new order that the storage has room for does what it does on the priority book. -/
theorem Valid.addLimit (id : OrderId) {side : Side} {price : Price} {quantity : Quantity}
    {tif : TimeInForce} (storable : book.canStoreLimit side price quantity tif = true) :
    Agrees Valid view (book.addLimit id side price quantity tif)
      (book.view.addLimit id side price quantity tif) := by
  cases book with
  | baseline store =>
    have agrees := BaselineStore.Valid.addLimit valid id side price quantity tif
    exact ⟨agrees.valid, agrees.view, agrees.answer⟩
  | intrusive store =>
    have storable : store.canStoreLimit side price quantity tif = true := storable
    have accepted : store.refuses (.addLimit id side price quantity tif) = false := by
      rw [IntrusiveStore.refuses, storable, Bool.not_true, Bool.and_false]
    have agrees := IntrusiveStore.Valid.addLimit valid accepted
    exact ⟨agrees.valid, agrees.view, agrees.answer⟩
  | contiguous store =>
    have storable : store.canStoreLimit side price quantity tif = true := storable
    have accepted : store.refuses (.addLimit id side price quantity tif) = false := by
      rw [ContiguousStore.refuses, storable, Bool.not_true, Bool.and_false]
    have agrees := ContiguousStore.Valid.addLimit valid accepted
    exact ⟨agrees.valid, agrees.view, agrees.answer⟩

theorem Valid.addMarket (id : OrderId) (side : Side) (quantity : Quantity) :
    Agrees Valid view (book.addMarket id side quantity) (book.view.addMarket id side quantity) := by
  cases book with
  | baseline store =>
    have agrees := BaselineStore.Valid.addMarket valid id side quantity
    exact ⟨agrees.valid, agrees.view, agrees.answer⟩
  | intrusive store =>
    have agrees := IntrusiveStore.Valid.addMarket valid id side quantity
    exact ⟨agrees.valid, agrees.view, agrees.answer⟩
  | contiguous store =>
    have agrees := ContiguousStore.Valid.addMarket valid id side quantity
    exact ⟨agrees.valid, agrees.view, agrees.answer⟩

theorem Valid.cancel (id : OrderId) :
    Agrees Valid view (book.cancel id) (book.view.cancel id) := by
  cases book with
  | baseline store =>
    obtain ⟨kept, after, answer⟩ := BaselineStore.Valid.cancel valid id
    exact ⟨kept, after, answer⟩
  | intrusive store =>
    obtain ⟨kept, after, answer⟩ := IntrusiveStore.Valid.cancel valid id
    exact ⟨kept, after, answer⟩
  | contiguous store =>
    obtain ⟨kept, after, answer⟩ := ContiguousStore.Valid.cancel valid id
    exact ⟨kept, after, answer⟩

/-- A modify that the storage can apply does what it does on the priority book. -/
theorem Valid.modify {id : OrderId} {newPrice : Price} {newQuantity : Quantity}
    (applicable : book.canApplyModify id newPrice newQuantity = true) :
    Agrees Valid view (book.modify id newPrice newQuantity)
      (book.view.modify id newPrice newQuantity) := by
  cases book with
  | baseline store =>
    have agrees := BaselineStore.Valid.modify valid id newPrice newQuantity
    exact ⟨agrees.valid, agrees.view, agrees.answer⟩
  | intrusive store =>
    have agrees := IntrusiveStore.Valid.modify valid id newPrice newQuantity
    exact ⟨agrees.valid, agrees.view, agrees.answer⟩
  | contiguous store =>
    have applicable : store.canApplyModify id newPrice newQuantity = true := applicable
    have accepted : store.refuses (.modify id newPrice newQuantity) = false := by
      rw [ContiguousStore.refuses, applicable]
      rfl
    have agrees := ContiguousStore.Valid.modify valid accepted
    exact ⟨agrees.valid, agrees.view, agrees.answer⟩

end Calls

/-- The storage that never turns an order down. -/
def unlimited : OrderBook → Bool
  | .baseline _ => true
  | .intrusive _ => false
  | .contiguous _ => false

end OrderBook

end Qsl
