import Qsl.EngineCalls

namespace Qsl

/- What a storage mode takes, told from the priority book alone: nothing else about the
containers can be seen from outside. -/
namespace Storage

/-- The pools are full when no maker makes room; the band bounds what may rest. -/
def canStoreLimit (storage : Storage) (book : Book) (side : Side) (price : Price)
    (quantity : Quantity) (tif : TimeInForce) : Bool :=
  let swept := book.matchTaker ⟨0, side, price, false⟩ quantity
  match storage with
  | .baseline => true
  | .pooled => true
  | .intrusivePooled =>
    !decide (tif = .gtc ∧ book.restingOrders.length = IntrusiveStore.intrusivePoolCapacity ∧
      swept.remaining ≠ 0 ∧ swept.filled = [])
  | .contiguous =>
    decide (tif = .ioc ∨ ContiguousStore.inBand price = true ∨ swept.remaining = 0)

def canApplyModify (storage : Storage) (book : Book) (id : OrderId) (newPrice : Price)
    (newQuantity : Quantity) : Bool :=
  match storage with
  | .contiguous =>
    match book.find? id with
    | none => true
    | some order =>
      decide (newQuantity = 0 ∨ (newPrice = order.price ∧ newQuantity ≤ order.quantity) ∨
        ContiguousStore.inBand newPrice = true ∨
        (book.matchTaker ⟨0, order.side, newPrice, false⟩ newQuantity).remaining = 0)
  | _ => true

def rooms (storage : Storage) (book : Book) : BookOp → Bool
  | .addLimit _ side price quantity tif => storage.canStoreLimit book side price quantity tif
  | .modify id newPrice newQuantity => storage.canApplyModify book id newPrice newQuantity
  | _ => true

/-- The priority book as a mode keeps it: a call it has no room for does nothing. -/
def apply (storage : Storage) (book : Book) (op : BookOp) : Book × BookReply :=
  if storage.rooms book op then book.apply op else (book, .traded [])

/-- The pooled mode is the baseline in all of this. -/
theorem rooms_mode (storage : Storage) (book : Book) (op : BookOp) :
    (OrderBook.new storage).mode.rooms book op = storage.rooms book op := by
  cases storage <;> cases op <;> rfl

end Storage

namespace OrderBook

/-- A call that the storage turns down leaves the book alone. -/
theorem turned_unchanged {book : OrderBook} {op : BookOp} (turned : book.stores op = false) :
    book.apply op = (book, .traded []) := by
  cases op with
  | addLimit id side price quantity tif =>
    cases book with
    | baseline store => cases turned
    | intrusive store =>
      have full : store.canStoreLimit side price quantity tif = false := turned
      rw [apply, addLimit, IntrusiveStore.addLimit, full]
      rfl
    | contiguous store =>
      have full : store.canStoreLimit side price quantity tif = false := turned
      rw [apply, addLimit, ContiguousStore.addLimit, full]
      rfl
  | modify id newPrice newQuantity =>
    cases book with
    | contiguous store =>
      have outside : store.canApplyModify id newPrice newQuantity = false := turned
      rw [apply, modify, ContiguousStore.modify, outside]
      cases store.index.find? id <;> rfl
    | _ => cases turned
  | _ => cases turned

section Calls

variable {book : OrderBook} (valid : book.Valid)

include valid

theorem Valid.canStoreLimit_eq (side : Side) (price : Price) (quantity : Quantity)
    (tif : TimeInForce) :
    book.canStoreLimit side price quantity tif =
      book.mode.canStoreLimit book.view side price quantity tif := by
  cases book with
  | baseline store => rfl
  | intrusive store =>
    have counted : store.orderCount = store.view.restingOrders.length :=
      congrArg Observation.orderCount (IntrusiveStore.Valid.observe_eq valid)
    have exactly := IntrusiveStore.Valid.canStoreLimit_iff valid 0 side price quantity tif
    rw [counted] at exactly
    show store.canStoreLimit side price quantity tif = !decide _
    rw [← Bool.not_eq_eq_eq_not, Bool.eq_iff_iff, Bool.not_eq_true', decide_eq_true_iff]
    exact exactly
  | contiguous store =>
    have exactly := ContiguousStore.Valid.canStoreLimit_iff valid 0 side price quantity tif
    show store.canStoreLimit side price quantity tif = decide _
    rw [Bool.eq_iff_iff, decide_eq_true_iff]
    exact exactly

theorem Valid.canApplyModify_eq (id : OrderId) (newPrice : Price) (newQuantity : Quantity) :
    book.canApplyModify id newPrice newQuantity =
      book.mode.canApplyModify book.view id newPrice newQuantity := by
  cases book with
  | baseline store => rfl
  | intrusive store => rfl
  | contiguous store =>
    have valid : store.Valid := valid
    have same := valid.contains_eq id
    rw [ContiguousStore.contains, OrderedMap.contains] at same
    show store.canApplyModify id newPrice newQuantity =
      Storage.canApplyModify .contiguous store.view id newPrice newQuantity
    rw [ContiguousStore.canApplyModify, Storage.canApplyModify]
    cases found : store.index.find? id with
    | none =>
      rw [found] at same
      rw [Book.find?_eq_none.mpr same.symm]
    | some loc =>
      obtain ⟨flat, pointed, order⟩ := valid.find?_order (valid.indexed.find?.mp found)
      rw [order]
      simp only [ContiguousStore.reducesInPlace, pointed, Option.map_some, Option.getD_some,
        valid.simulateRemainder_eq 0, decide_eq_true_eq]
      by_cases zero : newQuantity = 0
      · simp [zero]
      by_cases lowered : newPrice = loc.price ∧ newQuantity ≤ flat.quantity
      · simp [lowered]
      by_cases banded : ContiguousStore.inBand newPrice = true
      · simp [banded]
      · simp [zero, lowered, banded]

theorem Valid.stores_eq (op : BookOp) : book.stores op = book.mode.rooms book.view op := by
  cases op with
  | addLimit id side price quantity tif => exact valid.canStoreLimit_eq side price quantity tif
  | modify id newPrice newQuantity => exact valid.canApplyModify_eq id newPrice newQuantity
  | _ => rfl

/-- Every call does what it does on the priority book as the mode keeps it. -/
theorem Valid.apply (op : BookOp) :
    Agrees Valid view (book.apply op) (book.mode.apply book.view op) := by
  rw [Storage.apply, ← valid.stores_eq]
  cases stored : book.stores op with
  | false =>
    rw [turned_unchanged stored]
    exact ⟨valid, rfl, rfl⟩
  | true =>
    cases op with
    | addLimit id side price quantity tif => exact (valid.addLimit id stored).reply BookReply.traded
    | addMarket id side quantity => exact (valid.addMarket id side quantity).reply BookReply.traded
    | cancel id => exact (valid.cancel id).reply BookReply.cancelled
    | modify id newPrice newQuantity => exact (valid.modify stored).reply BookReply.traded

end Calls

end OrderBook

end Qsl
