import Qsl.StorageRoom

/- The priority book looks at order ids only to tell orders apart: under an injective renaming
every call does and answers the same. -/
namespace Qsl

open List

section Renaming

variable (ids : OrderId → OrderId)

def Order.rename (order : Order) : Order := { order with id := ids order.id }

def Trade.rename (trade : Trade) : Trade :=
  { trade with takerId := ids trade.takerId, makerId := ids trade.makerId }

def Taker.rename (taker : Taker) : Taker := { taker with id := ids taker.id }

def Sweep.rename (swept : Sweep) : Sweep :=
  ⟨swept.trades.map (Trade.rename ids), swept.filled.map ids, swept.remaining,
    swept.left.map (Order.rename ids)⟩

def Book.rename (book : Book) : Book :=
  ⟨book.bids.map (Order.rename ids), book.asks.map (Order.rename ids)⟩

def BookOp.rename : BookOp → BookOp
  | .addLimit id side price quantity tif => .addLimit (ids id) side price quantity tif
  | .addMarket id side quantity => .addMarket (ids id) side quantity
  | .cancel id => .cancel (ids id)
  | .modify id newPrice newQuantity => .modify (ids id) newPrice newQuantity

def BookReply.rename : BookReply → BookReply
  | .traded trades => .traded (trades.map (Trade.rename ids))
  | .cancelled found => .cancelled found

end Renaming

section Sweep

variable (ids : OrderId → OrderId) (taker : Taker)

theorem sweep_rename (orders : List Order) (quantity : Quantity) :
    sweep (taker.rename ids) (orders.map (Order.rename ids)) quantity =
      (sweep taker orders quantity).rename ids := by
  induction orders generalizing quantity with
  | nil => rfl
  | cons maker rest ih =>
    by_cases stopped : quantity = 0 ∨ taker.crosses maker.price = false
    · have stopped' : quantity = 0 ∨
          (taker.rename ids).crosses (maker.rename ids).price = false := stopped
      rw [map_cons, sweep_stop _ stopped', sweep_stop _ stopped]
      rfl
    · obtain ⟨positive, crossing⟩ := not_or.mp stopped
      rw [Bool.not_eq_false] at crossing
      have crossing' : (taker.rename ids).crosses (maker.rename ids).price = true := crossing
      by_cases exhausted : maker.quantity - min quantity maker.quantity = 0
      · rw [map_cons, sweep_exhaust _ positive crossing' exhausted,
          sweep_exhaust _ positive crossing exhausted]
        simp only [Order.rename, ih]
        rfl
      · rw [map_cons, sweep_survive _ positive crossing' exhausted,
          sweep_survive _ positive crossing exhausted]
        rfl

/-- The name of the taker shows in the trades alone. -/
theorem sweep_taker (id : OrderId) (orders : List Order) (quantity : Quantity) :
    (sweep { taker with id := id } orders quantity).remaining =
        (sweep taker orders quantity).remaining ∧
      (sweep { taker with id := id } orders quantity).filled =
        (sweep taker orders quantity).filled := by
  induction orders generalizing quantity with
  | nil => exact ⟨rfl, rfl⟩
  | cons maker rest ih =>
    by_cases stopped : quantity = 0 ∨ taker.crosses maker.price = false
    · have stopped' : quantity = 0 ∨
          ({ taker with id := id } : Taker).crosses maker.price = false := stopped
      rw [sweep_stop _ stopped', sweep_stop _ stopped]
      exact ⟨rfl, rfl⟩
    · obtain ⟨positive, crossing⟩ := not_or.mp stopped
      rw [Bool.not_eq_false] at crossing
      have crossing' : ({ taker with id := id } : Taker).crosses maker.price = true := crossing
      by_cases exhausted : maker.quantity - min quantity maker.quantity = 0
      · rw [sweep_exhaust _ positive crossing' exhausted,
          sweep_exhaust _ positive crossing exhausted]
        obtain ⟨remaining, filled⟩ := ih (quantity - min quantity maker.quantity)
        exact ⟨remaining, congrArg (maker.id :: ·) filled⟩
      · rw [sweep_survive _ positive crossing' exhausted,
          sweep_survive _ positive crossing exhausted]
        exact ⟨rfl, rfl⟩

end Sweep

namespace Book

variable (ids : OrderId → OrderId) (book : Book)

@[simp] theorem rename_side (side : Side) :
    (book.rename ids).side side = (book.side side).map (Order.rename ids) := by
  cases side <;> rfl

theorem rename_setSide (side : Side) (orders : List Order) :
    (book.setSide side orders).rename ids =
      (book.rename ids).setSide side (orders.map (Order.rename ids)) := by
  cases side <;> rfl

theorem rename_restingOrders :
    (book.rename ids).restingOrders = book.restingOrders.map (Order.rename ids) := by
  rw [restingOrders, restingOrders, map_append]
  rfl

theorem rename_rest (order : Order) :
    (book.rest order).rename ids = (book.rename ids).rest (order.rename ids) := by
  have inserted := map_orderedInsert (fun a b : Order => Better order.side a.price b.price)
    (fun a b : Order => Better order.side a.price b.price) (Order.rename ids)
    (book.side order.side) order (fun _ _ => Iff.rfl) (fun _ _ => Iff.rfl)
  rw [rest, rest, rename_setSide, inserted, rename_side]
  rfl

theorem rename_matchTaker (taker : Taker) (quantity : Quantity) :
    (book.rename ids).matchTaker (taker.rename ids) quantity =
      (book.matchTaker taker quantity).rename ids := by
  rw [matchTaker, rename_side]
  exact sweep_rename ids taker _ quantity

/-- What a sweep leaves over does not depend on any names. -/
theorem rename_swept (side : Side) (price : Price) (quantity : Quantity) :
    ((book.rename ids).matchTaker ⟨0, side, price, false⟩ quantity).remaining =
        (book.matchTaker ⟨0, side, price, false⟩ quantity).remaining ∧
      ((book.rename ids).matchTaker ⟨0, side, price, false⟩ quantity).filled =
        (book.matchTaker ⟨0, side, price, false⟩ quantity).filled.map ids := by
  have named : sweep ⟨ids 0, side, price, false⟩ ((book.rename ids).side side.opposite) quantity =
      (book.matchTaker ⟨0, side, price, false⟩ quantity).rename ids :=
    rename_matchTaker ids book ⟨0, side, price, false⟩ quantity
  have anyTaker := sweep_taker ⟨ids 0, side, price, false⟩ 0
    ((book.rename ids).side side.opposite) quantity
  rw [named] at anyTaker
  exact anyTaker

theorem rename_bestPrice (side : Side) :
    (book.rename ids).bestPrice side = book.bestPrice side := by
  rw [bestPrice, rename_side, head?_map, Option.map_map, bestPrice]
  rfl

theorem rename_levelViews (side : Side) :
    (book.rename ids).levelViews side = book.levelViews side := by
  have prices : ((book.side side).map (Order.rename ids)).map Order.price =
      (book.side side).map Order.price := by
    rw [map_map]
    rfl
  have totals : ∀ price, (book.rename ids).quantityAt side price = book.quantityAt side price := by
    intro price
    rw [quantityAt, rename_side, filter_map, totalQuantity, map_map, quantityAt,
      totalQuantity]
    rfl
  simp only [levelViews, rename_side, prices, totals]

variable {ids} (injective : Function.Injective ids)

include injective

section

variable (id : OrderId)

include id

theorem rename_contains : (book.rename ids).contains (ids id) = book.contains id := by
  rw [contains, rename_restingOrders, any_map, contains]
  congr 1
  funext order
  simp [Order.rename, injective.eq_iff]

theorem rename_find? :
    (book.rename ids).find? (ids id) = (book.find? id).map (Order.rename ids) := by
  rw [find?, rename_restingOrders, find?_map, find?]
  congr 2
  funext order
  simp [Order.rename, injective.eq_iff]

theorem rename_remove : (book.remove id).rename ids = (book.rename ids).remove (ids id) := by
  have removed : ∀ orders : List Order,
      (orders.filter (fun order => order.id ≠ id)).map (Order.rename ids) =
        (orders.map (Order.rename ids)).filter (fun order => order.id ≠ ids id) := by
    intro orders
    rw [filter_map]
    congr 2
    funext order
    simp [Order.rename, injective.eq_iff]
  rw [remove, remove, rename, removed, removed]
  rfl

theorem rename_setQuantity (quantity : Quantity) :
    (book.setQuantity id quantity).rename ids =
      (book.rename ids).setQuantity (ids id) quantity := by
  have reduced : ∀ order : Order,
      (reduce id quantity order).rename ids = reduce (ids id) quantity (order.rename ids) := by
    intro order
    by_cases same : order.id = id
    · have same' : (order.rename ids).id = ids id := congrArg ids same
      rw [reduce, if_pos same, reduce, if_pos same']
      rfl
    · have differ : (order.rename ids).id ≠ ids id := fun equal => same (injective equal)
      rw [reduce, if_neg same, reduce, if_neg differ]
  simp only [setQuantity, rename, map_map, Function.comp_def, reduced]

theorem rename_addLimit (side : Side) (price : Price) (quantity : Quantity) (tif : TimeInForce) :
    (book.rename ids).addLimit (ids id) side price quantity tif =
      ((book.addLimit id side price quantity tif).1.rename ids,
        (book.addLimit id side price quantity tif).2.map (Trade.rename ids)) := by
  have swept := rename_matchTaker ids book ⟨id, side, price, false⟩ quantity
  rw [Taker.rename] at swept
  rw [addLimit, addLimit, rename_contains book injective]
  split
  · rfl
  · simp only [swept]
    by_cases rests : (book.matchTaker ⟨id, side, price, false⟩ quantity).remaining ≠ 0 ∧ tif = .gtc
    · have rests' : ((book.matchTaker ⟨id, side, price, false⟩ quantity).rename ids).remaining ≠ 0 ∧
          tif = .gtc := rests
      rw [if_pos rests, if_pos rests', rename_rest, rename_setSide]
      rfl
    · have lapses :
          ¬ (((book.matchTaker ⟨id, side, price, false⟩ quantity).rename ids).remaining ≠ 0 ∧
            tif = .gtc) := rests
      rw [if_neg rests, if_neg lapses, rename_setSide]
      rfl

theorem rename_addMarket (side : Side) (quantity : Quantity) :
    (book.rename ids).addMarket (ids id) side quantity =
      ((book.addMarket id side quantity).1.rename ids,
        (book.addMarket id side quantity).2.map (Trade.rename ids)) := by
  have swept := rename_matchTaker ids book ⟨id, side, 0, true⟩ quantity
  rw [Taker.rename] at swept
  rw [addMarket, addMarket, rename_contains book injective]
  split
  · rfl
  · simp only [swept, rename_setSide]
    rfl

theorem rename_cancel :
    (book.rename ids).cancel (ids id) =
      ((book.cancel id).1.rename ids, (book.cancel id).2) := by
  rw [cancel, cancel, rename_contains book injective]
  split
  · rw [rename_remove book injective]
  · rfl

theorem rename_modify (newPrice : Price) (newQuantity : Quantity) :
    (book.rename ids).modify (ids id) newPrice newQuantity =
      ((book.modify id newPrice newQuantity).1.rename ids,
        (book.modify id newPrice newQuantity).2.map (Trade.rename ids)) := by
  rw [modify, modify, rename_find? book injective]
  cases book.find? id with
  | none => rfl
  | some order =>
    simp only [Option.map_some]
    change (if newQuantity = 0 then _ else
      if newPrice = order.price ∧ newQuantity ≤ order.quantity then _ else _) = _
    split
    · rw [rename_remove book injective]
      rfl
    · split
      · rw [rename_setQuantity book injective]
        rfl
      · rw [← rename_remove book injective]
        exact rename_addLimit (book.remove id) injective id order.side newPrice newQuantity .gtc

end

/-- Every call commutes with the renaming. -/
theorem rename_apply (op : BookOp) :
    (book.rename ids).apply (op.rename ids) =
      ((book.apply op).1.rename ids, (book.apply op).2.rename ids) := by
  cases op with
  | addLimit id side price quantity tif =>
    simp only [apply, BookOp.rename, rename_addLimit book injective]
    rfl
  | addMarket id side quantity =>
    simp only [apply, BookOp.rename, rename_addMarket book injective]
    rfl
  | cancel id =>
    simp only [apply, BookOp.rename, rename_cancel book injective]
    rfl
  | modify id newPrice newQuantity =>
    simp only [apply, BookOp.rename, rename_modify book injective]
    rfl

theorem rename_admits (op : BookOp) :
    (book.rename ids).admits (op.rename ids) = book.admits op := by
  cases op <;> simp only [admits, BookOp.rename, rename_contains book injective]

/-- A storage mode does not look at names either. -/
theorem rename_rooms (storage : Storage) (op : BookOp) :
    storage.rooms (book.rename ids) (op.rename ids) = storage.rooms book op := by
  cases op with
  | addLimit id side price quantity tif =>
    obtain ⟨remaining, filled⟩ := rename_swept ids book side price quantity
    cases storage <;>
      simp [Storage.rooms, Storage.canStoreLimit, BookOp.rename, remaining, filled,
        rename_restingOrders]
  | modify id newPrice newQuantity =>
    cases storage with
    | baseline | pooled | intrusivePooled => rfl
    | contiguous =>
      simp only [Storage.rooms, Storage.canApplyModify, BookOp.rename,
        rename_find? book injective]
      cases book.find? id with
      | none => rfl
      | some order =>
        have remaining := (rename_swept ids book order.side newPrice newQuantity).1
        simp only [Option.map_some, Order.rename, remaining]
  | _ => rfl

end Book

end Qsl
