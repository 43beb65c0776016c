import Qsl.Matching
import Qsl.PriorityObservation

/- What a storage backend owes the priority book, over the matching templates the
backends share. -/
namespace Qsl

open List OrderedMap

variable {id : OrderId}

/-- Valid stores stand for well-formed books, lookups ask the book, and matching
an order of the given side sweeps the other side of the book. -/
structure Refines {σ : Type} (Valid : σ → Prop) (view : σ → Book)
    (containsFn : OrderId → σ → Bool) (matchFn : Side → σ → MatchContext → σ × MatchContext) :
    Prop where
  book : ∀ store, Valid store → (view store).WellFormed
  contains : ∀ store id, Valid store → containsFn id store = (view store).contains id
  matched : ∀ store side ctx, Valid store → ctx.taker.side = side →
    let swept := (view store).matchTaker ctx.taker ctx.quantity
    (matchFn side store ctx).2 = ctx.after swept ∧ Valid (matchFn side store ctx).1 ∧
      view (matchFn side store ctx).1 = (view store).setSide side.opposite swept.left

/-- The state after a call is valid, stands for what the abstract call leaves, and gave its
answer. -/
structure Agrees {σ β α : Type} (Valid : σ → Prop) (view : σ → β) (outcome : σ × α)
    (expected : β × α) : Prop where
  valid : Valid outcome.1
  view : view outcome.1 = expected.1
  answer : outcome.2 = expected.2

section Agrees

variable {σ β α γ : Type} {Valid : σ → Prop} {view : σ → β}

theorem Agrees.reply {outcome : σ × α} {expected : β × α}
    (agrees : Agrees Valid view outcome expected) (wrap : α → γ) :
    Agrees Valid view (outcome.1, wrap outcome.2) (expected.1, wrap expected.2) :=
  ⟨agrees.valid, agrees.view, congrArg wrap agrees.answer⟩

end Agrees

theorem shouldRestLimit_iff {trades : List Trade} {remainder : Quantity} {tif : TimeInForce} :
    shouldRestLimit ⟨trades, remainder, true⟩ tif = true ↔ remainder ≠ 0 ∧ tif = .gtc := by
  simp [shouldRestLimit]

/-- A backend that has matched an order puts its remainder away as the book does. -/
def RestsAs {σ : Type} (Valid : σ → Prop) (view : σ → Book) (restFn : σ → Quantity → σ)
    (book : Book) (id : OrderId) (side : Side) (price : Price) (quantity : Quantity)
    (tif : TimeInForce) : Prop :=
  let swept := book.matchTaker ⟨id, side, price, false⟩ quantity
  book.contains id = false → swept.remaining ≠ 0 ∧ tif = .gtc →
    ∀ matched, Valid matched → view matched = book.setSide side.opposite swept.left →
      Valid (restFn matched swept.remaining) ∧ view (restFn matched swept.remaining) =
        (view matched).rest ⟨id, side, price, swept.remaining⟩

section Incoming

variable {σ : Type} {Valid : σ → Prop} {view : σ → Book} {containsFn : OrderId → σ → Bool}
variable {matchFn : Side → σ → MatchContext → σ × MatchContext}
variable (refines : Refines Valid view containsFn matchFn)

include refines

section

variable {store : σ} (valid : Valid store)

include valid

/-- A duplicate id changes nothing and is not accepted. -/
theorem Refines.incoming_duplicate (duplicate : (view store).contains id = true) (side : Side)
    (limit : Price) (isMarket : Bool) (quantity : Quantity) :
    matchIncoming store id side limit isMarket quantity (containsFn id) matchFn =
      (store, ⟨[], quantity, false⟩) := by
  rw [matchIncoming, refines.contains store id valid, duplicate]
  rfl

/-- A new id is matched: the result is that of the sweep. -/
theorem Refines.incoming_fresh (fresh : (view store).contains id = false) (side : Side)
    (limit : Price) (isMarket : Bool) (quantity : Quantity) :
    let swept := (view store).matchTaker ⟨id, side, limit, isMarket⟩ quantity
    ∃ matched, Valid matched ∧ view matched = (view store).setSide side.opposite swept.left ∧
      matchIncoming store id side limit isMarket quantity (containsFn id) matchFn =
        (matched, ⟨swept.trades, swept.remaining, true⟩) := by
  let ctx : MatchContext := ⟨id, side == .buy, limit, isMarket, quantity, []⟩
  have taker : ctx.taker = ⟨id, side, limit, isMarket⟩ := by cases side <;> rfl
  obtain ⟨recorded, kept, left⟩ := refines.matched store side ctx valid (by rw [taker])
  rw [taker] at recorded left
  refine ⟨(matchFn side store ctx).1, kept, left, ?_⟩
  rw [matchIncoming, refines.contains store id valid, fresh]
  change ((matchFn side store ctx).1, MatchResult.mk (matchFn side store ctx).2.trades
    (matchFn side store ctx).2.quantity true) = _
  rw [recorded]
  rfl

theorem Refines.addMarket (id : OrderId) (side : Side) (quantity : Quantity) :
    let outcome := matchIncoming store id side 0 true quantity (containsFn id) matchFn
    Agrees Valid view (outcome.1, outcome.2.trades) ((view store).addMarket id side quantity) := by
  intro outcome
  cases known : (view store).contains id with
  | true =>
    simp only [outcome, refines.incoming_duplicate valid known, Book.addMarket, known]
    exact ⟨valid, rfl, rfl⟩
  | false =>
    obtain ⟨matched, kept, left, result⟩ :=
      refines.incoming_fresh valid known side 0 true quantity
    simp only [outcome, result, Book.addMarket, known]
    exact ⟨kept, left, rfl⟩

theorem Refines.addLimit {side : Side} {price : Price} {quantity : Quantity} {tif : TimeInForce}
    (restFn : σ → Quantity → σ)
    (rests : RestsAs Valid view restFn (view store) id side price quantity tif) :
    let outcome := matchIncoming store id side price false quantity (containsFn id) matchFn
    Agrees Valid view
      (if shouldRestLimit outcome.2 tif then
        (restFn outcome.1 outcome.2.remainder, outcome.2.trades)
      else (outcome.1, outcome.2.trades))
      ((view store).addLimit id side price quantity tif) := by
  intro outcome
  cases known : (view store).contains id with
  | true =>
    simp only [outcome, refines.incoming_duplicate valid known, Book.addLimit, known]
    exact ⟨valid, rfl, rfl⟩
  | false =>
    obtain ⟨matched, kept, left, result⟩ :=
      refines.incoming_fresh valid known side price false quantity
    simp only [outcome, result, Book.addLimit, known, shouldRestLimit_iff, Bool.false_eq_true,
      if_false]
    split
    · rename_i stays
      obtain ⟨restValid, restView⟩ := rests known stays matched kept left
      exact ⟨restValid, restView.trans (by rw [left]), rfl⟩
    · exact ⟨kept, left, rfl⟩

/-- A limit order behind a check: a duplicate may fail it, for it changes nothing. -/
theorem Refines.addLimit_checked {side : Side} {price : Price} {quantity : Quantity}
    {tif : TimeInForce} {storable : Bool} (accepted : (!containsFn id store && !storable) = false)
    (restFn : σ → Quantity → σ) (rests : storable = true →
      RestsAs Valid view restFn (view store) id side price quantity tif) :
    let outcome := matchIncoming store id side price false quantity (containsFn id) matchFn
    Agrees Valid view
      (if !storable then (store, [])
      else if shouldRestLimit outcome.2 tif then
        (restFn outcome.1 outcome.2.remainder, outcome.2.trades)
      else (outcome.1, outcome.2.trades))
      ((view store).addLimit id side price quantity tif) := by
  cases storable with
  | true => exact refines.addLimit valid restFn (rests rfl)
  | false =>
    have known : (view store).contains id = true := by
      rw [← refines.contains store id valid]
      simpa using accepted
    rw [Book.addLimit, known]
    exact ⟨valid, rfl, rfl⟩

end

/-- A cancel through an index that lists what the book holds. -/
theorem Refines.cancel {Locator : Type} {store : σ} (valid : Valid store) (entry : Option Locator)
    (eraseFn : Locator → σ) (listed : entry.isSome = containsFn id store)
    (erased : ∀ loc, entry = some loc →
      Valid (eraseFn loc) ∧ view (eraseFn loc) = (view store).remove id) :
    Agrees Valid view (match entry with | none => (store, false) | some loc => (eraseFn loc, true))
      ((view store).cancel id) := by
  rw [Book.cancel, ← refines.contains store id valid, ← listed]
  cases entry with
  | none => exact ⟨valid, rfl, rfl⟩
  | some loc => exact ⟨(erased loc rfl).1, (erased loc rfl).2, rfl⟩

end Incoming

/-- A side of the book kept as a map of price levels: `content` are a level's orders. -/
structure LevelMap {Level : Type} {side : Side} (book : Book)
    (levels : OrderedMap Price Level (Better side)) (content : Level → List Order) : Prop where
  orders : book.side side = levels.collect (fun _ level => content level)
  occupied : ∀ entry ∈ levels.entries, content entry.2 ≠ []
  filed : ∀ entry ∈ levels.entries, ∀ order ∈ content entry.2, order.price = entry.1

section LevelMap

variable {Level : Type} {side : Side} {book : Book} {levels : OrderedMap Price Level (Better side)}
variable {content : Level → List Order}
variable (kept : LevelMap book levels content)

include kept

theorem LevelMap.bestPrice : levels.first?.map Prod.fst = book.bestPrice side := by
  rw [Book.bestPrice, kept.orders, OrderedMap.first?, OrderedMap.collect]
  cases shape : levels.entries with
  | nil => rfl
  | cons entry worse =>
    have listed : entry ∈ levels.entries := by
      rw [shape]
      exact mem_cons_self
    obtain ⟨first, queued, level⟩ := exists_cons_of_ne_nil (kept.occupied entry listed)
    have priced := kept.filed entry listed first (by rw [level]; exact mem_cons_self)
    rw [flatMap_cons, level]
    exact congrArg some priced.symm

theorem LevelMap.quantityAt (price : Price) :
    book.quantityAt side price =
      ((levels.find? price).map (fun level => totalQuantity (content level))).getD 0 := by
  rw [Book.quantityAt, kept.orders, collect_filter_key kept.filed, OrderedMap.bucket]
  cases levels.find? price <;> rfl

theorem LevelMap.prices_eq (valid : book.WellFormed) :
    ((book.side side).map Order.price).dedup = levels.keys := by
  apply valid.prices_eq (keys_sorted _)
  intro price
  rw [kept.orders]
  constructor
  · intro listed
    obtain ⟨entry, member, rfl⟩ := mem_map.mp listed
    obtain ⟨order, inside⟩ := exists_mem_of_ne_nil _ (kept.occupied entry member)
    exact ⟨order, mem_collect.mpr ⟨entry, member, inside⟩,
      kept.filed entry member order inside⟩
  · intro ⟨order, resting, priced⟩
    obtain ⟨entry, member, inside⟩ := mem_collect.mp resting
    rw [← priced, kept.filed entry member order inside]
    exact mem_map_of_mem member

theorem LevelMap.levelViews (valid : book.WellFormed) :
    book.levelViews side =
      levels.entries.map (fun entry => ⟨entry.1, totalQuantity (content entry.2)⟩) := by
  rw [Book.levelViews, kept.prices_eq valid, OrderedMap.keys, map_map]
  apply map_congr_left
  intro entry member
  have found := OrderedMap.find?_eq_some.mpr member
  rw [Function.comp_apply, kept.quantityAt, found]
  rfl

end LevelMap

end Qsl
