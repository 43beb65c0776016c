import Qsl.IntrusiveRefinement
import Qsl.Lockstep

namespace Qsl.IntrusiveStore

open List

section Walks

/-- A visit of one node that tallies what `measure` reads off the sweep. -/
structure Tallies (nodeFn : Order → Tally → Tally) (measure : Sweep → Nat) : Prop where
  idle : ∀ quantity left, measure ⟨[], [], quantity, left⟩ = 0
  joined : ∀ whole first second : Sweep, whole.trades = first.trades ++ second.trades →
    whole.filled = first.filled ++ second.filled → measure whole = measure first + measure second
  node : ∀ (taker : Taker) (maker : Order) (queued : List Order) (tally : Tally),
    tally.remainder ≠ 0 → taker.crosses maker.price = true →
    (nodeFn maker tally).remainder =
        tally.remainder - min tally.remainder maker.quantity ∧
      (nodeFn maker tally).count +
          measure (sweep taker queued (tally.remainder - min tally.remainder maker.quantity)) =
        tally.count + measure (sweep taker (maker :: queued) tally.remainder)

theorem tallies_trades : Tallies countNodeMatch (fun swept => swept.trades.length) where
  idle := fun _ _ => rfl
  joined := by
    intro whole first second trades _
    rw [trades, length_append]
  node := by
    intro taker maker queued tally positive crossing
    have trades := (sweep_cons taker queued positive crossing).1
    refine ⟨rfl, ?_⟩
    simp only [countNodeMatch, trades, length_cons]
    omega

theorem tallies_filled : Tallies simulateNodeMatch (fun swept => swept.filled.length) where
  idle := fun _ _ => rfl
  joined := by
    intro whole first second _ filled
    rw [filled, length_append]
  node := by
    intro taker maker queued tally positive crossing
    have filled := (sweep_cons taker queued positive crossing).2.1
    refine ⟨rfl, ?_⟩
    simp only [simulateNodeMatch, filled]
    -- a maker is used up exactly when all of its quantity is traded
    rcases fill_cases tally.remainder maker.quantity with ⟨_, whole, used⟩ | ⟨short, part, _, left⟩
    · rw [if_pos whole, if_pos used, length_cons]
      omega
    · have differ : min tally.remainder maker.quantity ≠ maker.quantity := by
        rw [part]
        exact UInt32.ne_of_lt short
      rw [if_neg differ, if_neg ((quantity_pos _).mp left)]

variable {nodeFn : Order → Tally → Tally} {measure : Sweep → Nat}

theorem visitLevel_eq (tallies : Tallies nodeFn measure) {taker : Taker} {price : Price}
    (crossing : taker.crosses price = true) (orders : List Order)
    (filed : ∀ order ∈ orders, order.price = price) (tally : Tally) :
    let swept := sweep taker orders tally.remainder
    visitLevel nodeFn orders tally = ⟨swept.remaining, tally.count + measure swept⟩ := by
  induction orders generalizing tally with
  | nil =>
    simp only [sweep, tallies.idle]
    rfl
  | cons maker queued ih =>
    rw [visitLevel]
    by_cases done : tally.remainder = 0
    · rw [if_pos done]
      simp only [done, sweep_zero, tallies.idle, Nat.add_zero]
      rw [← done]
    · have crosses : taker.crosses maker.price = true := by
        rw [filed maker mem_cons_self]
        exact crossing
      obtain ⟨remainder, count⟩ := tallies.node taker maker queued tally done crosses
      have remaining := (sweep_cons taker queued done crosses).2.2
      have rest := ih (fun order member => filed order (mem_cons_of_mem _ member))
        (nodeFn maker tally)
      simp only [remainder, count] at rest
      simp only [if_neg done, rest, remaining]

/-- A walk over levels tallies the sweep of the side. -/
theorem visitLevels_eq (tallies : Tallies nodeFn measure) (taker : Taker) {pools : Pools}
    (entries : List (Price × Level))
    (filed : ∀ entry ∈ entries, pools.levelOrders entry.2 ≠ [] ∧
      ∀ order ∈ pools.levelOrders entry.2, order.price = entry.1) (tally : Tally) :
    let swept := sweep taker (entries.flatMap (fun entry => pools.levelOrders entry.2))
      tally.remainder
    visitLevels nodeFn (taker.side == .buy) taker.isMarket taker.limit pools entries tally =
      ⟨swept.remaining, tally.count + measure swept⟩ := by
  induction entries generalizing tally with
  | nil =>
    simp only [flatMap_nil, sweep, tallies.idle]
    rfl
  | cons entry worse ih =>
    obtain ⟨occupied, priced⟩ := filed entry mem_cons_self
    rw [visitLevels, flatMap_cons]
    by_cases done : tally.remainder = 0
    · rw [if_pos done]
      simp only [done, sweep_zero, tallies.idle, Nat.add_zero]
      rw [← done]
    rw [if_neg done]
    have crosses : canMatchLevel (taker.side == .buy) taker.isMarket taker.limit entry.1 =
      taker.crosses entry.1 := rfl
    rw [crosses]
    cases crossing : taker.crosses entry.1 with
    | true =>
      have level := visitLevel_eq tallies crossing (pools.levelOrders entry.2) priced tally
      obtain ⟨trades, filled, remaining⟩ := sweep_level_append crossing priced
        (worse.flatMap (fun entry => pools.levelOrders entry.2)) tally.remainder
      have rest := ih (fun later member => filed later (mem_cons_of_mem _ member))
        (visitLevel nodeFn (pools.levelOrders entry.2) tally)
      simp only [level] at rest
      have joined := tallies.joined _ _ _ trades filled
      simp only [Bool.not_true, Bool.false_eq_true, if_false, level, rest, remaining, joined,
        Nat.add_assoc]
    | false =>
      obtain ⟨maker, queued, shape⟩ := exists_cons_of_ne_nil occupied
      have stop : taker.crosses maker.price = false := by
        rw [priced maker (by rw [shape]; exact mem_cons_self)]
        exact crossing
      simp only [Bool.not_false, if_true, shape, cons_append,
        sweep_stop taker (Or.inr stop), tallies.idle, Nat.add_zero]

end Walks

section Queries

variable {capacity : Nat} {store : IntrusiveStore}
variable (valid : Valid capacity store)

include valid

theorem Valid.levels_filed (side : Side) :
    ∀ entry ∈ (store.levels side).entries, store.pools.levelOrders entry.2 ≠ [] ∧
      ∀ order ∈ store.pools.levelOrders entry.2, order.price = entry.1 := by
  obtain ⟨cells, placed⟩ := valid.placed
  intro entry member
  have shape := placed.levels side entry member
  have orders : store.pools.levelOrders entry.2 = (cells side entry.1).map Cell.order := by
    apply (placed.accounts_side side).levelOrders _ shape.holds
    apply List.Sublist.trans _ (sublist_append_left _ _)
    exact sublist_flatten_of_mem (mem_map_of_mem member)
  rw [orders]
  refine ⟨?_, ?_⟩
  · intro empty
    exact shape.occupied (map_eq_nil_iff.mp empty)
  · intro order inside
    obtain ⟨cell, present, rfl⟩ := mem_map.mp inside
    exact (shape.filed cell present).2

theorem Valid.visit_eq {nodeFn : Order → Tally → Tally} {measure : Sweep → Nat}
    (tallies : Tallies nodeFn measure) (taker : Taker) (quantity : Quantity) :
    visitLevels nodeFn (taker.side == .buy) taker.isMarket taker.limit store.pools
        (store.levels taker.side.opposite).entries ⟨quantity, 0⟩ =
      ⟨(store.view.matchTaker taker quantity).remaining,
        measure (store.view.matchTaker taker quantity)⟩ := by
  have walked := visitLevels_eq tallies taker _ (valid.levels_filed taker.side.opposite)
    ⟨quantity, 0⟩
  rw [Book.matchTaker, view_side, appendOrders]
  simpa using walked

/-- The pre-check predicts the remainder of the real match and how many makers it
uses up. -/
theorem Valid.simulateMatch_eq (id : OrderId) (side : Side) (limit : Price) (quantity : Quantity) :
    let swept := store.view.matchTaker ⟨id, side, limit, false⟩ quantity
    store.simulateMatch side limit false quantity = ⟨swept.remaining, swept.filled.length⟩ :=
  valid.visit_eq tallies_filled ⟨id, side, limit, false⟩ quantity

/-- The pre-check fails for a GTC order that would rest while the pools are full and
no maker makes room. -/
theorem Valid.canStoreLimit_iff (id : OrderId) (side : Side) (price : Price) (quantity : Quantity)
    (tif : TimeInForce) :
    let swept := store.view.matchTaker ⟨id, side, price, false⟩ quantity
    store.canStoreLimit side price quantity tif = false ↔
      tif = .gtc ∧ store.orderCount = capacity ∧ swept.remaining ≠ 0 ∧ swept.filled = [] := by
  rw [canStoreLimit, valid.simulateMatch_eq id]
  cases tif with
  | ioc => simp
  | gtc =>
    cases room : store.hasCapacity with
    | true =>
      have below : store.orderCount ≠ capacity := by
        intro full
        rw [valid.hasCapacity_iff.mpr full] at room
        cases room
      simp [below]
    | false => simp [valid.hasCapacity_iff.mp room]

theorem Valid.orderCount_le : store.orderCount ≤ capacity := by
  obtain ⟨_, orders, _⟩ := valid.counts
  omega

end Queries

def apply (store : IntrusiveStore) : BookOp → IntrusiveStore × BookReply
  | .addLimit id side price quantity tif =>
    let (after, trades) := store.addLimit ⟨id, side, price, quantity, tif⟩
    (after, .traded trades)
  | .addMarket id side quantity =>
    let (after, trades) := store.addMarket id side quantity
    (after, .traded trades)
  | .cancel id =>
    let (after, found) := store.cancel id
    (after, .cancelled found)
  | .modify id newPrice newQuantity =>
    let (after, trades) := store.modify id newPrice newQuantity
    (after, .traded trades)

def observe (store : IntrusiveStore) : Observation where
  restingOrders := store.restingOrders
  orderCount := store.orderCount
  contains := store.contains
  bestBid := store.bestBid
  bestAsk := store.bestAsk
  quantityAt := store.quantityAt
  bidLevels := store.bidLevels
  askLevels := store.askLevels
  fillCount := store.fillCount

/-- Where the code can turn a call down: the pre-check of a new order, also of the one
that a modify adds back after it erased the old one. -/
def refuses (store : IntrusiveStore) : BookOp → Bool
  | .addLimit id side price quantity tif =>
    !store.contains id && !store.canStoreLimit side price quantity tif
  | .modify id newPrice newQuantity =>
    match store.pools.index.find? id with
    | none => false
    | some loc =>
      if newQuantity = 0 ∨ store.inPlace loc newPrice newQuantity then false
      else !(store.eraseIndexedOrder id loc).canStoreLimit loc.side newPrice newQuantity .gtc
  | _ => false

theorem refines (capacity : Nat) :
    Refines (Valid capacity) view (fun id store => store.contains id) matchOpposite where
  book := fun _ valid => valid.book
  contains := fun _ id valid => valid.contains_eq id
  matched := fun _ _ _ valid sided => valid.matchOpposite sided

section Calls

variable {capacity : Nat} {store : IntrusiveStore} (valid : Valid capacity store)

include valid

section

variable {id : OrderId} {side : Side} {price : Price} {quantity : Quantity} {tif : TimeInForce}

/-- A remainder that passed the pre-check finds its slots: there was room before the
match, or the match uses up a maker. -/
theorem Valid.room (storable : store.canStoreLimit side price quantity tif = true)
    (rests : (store.view.matchTaker ⟨id, side, price, false⟩ quantity).remaining ≠ 0 ∧ tif = .gtc)
    {matched : IntrusiveStore} (kept : Valid capacity matched)
    (left : matched.view = store.view.setSide side.opposite
      (store.view.matchTaker ⟨id, side, price, false⟩ quantity).left) :
    matched.orderCount < capacity := by
  have count := store.view.matched_length ⟨id, side, price, false⟩ quantity
  rw [← valid.counts.1] at count
  have after := kept.counts.1
  rw [left] at after
  have bound := valid.orderCount_le
  by_cases full : store.orderCount = capacity
  · have used : (store.view.matchTaker ⟨id, side, price, false⟩ quantity).filled ≠ [] := by
      intro none
      have refused := (valid.canStoreLimit_iff id side price quantity tif).mpr
        ⟨rests.2, full, rests.1, none⟩
      rw [storable] at refused
      cases refused
    have freed := length_pos_iff.mpr used
    simp only at count after
    omega
  · simp only at count after
    omega

/-- Resting after a match that passed the pre-check: both pools have a free slot and
the order is queued. -/
theorem Valid.rest_succeeds (storable : store.canStoreLimit side price quantity tif = true)
    (fresh : store.view.contains id = false)
    (rests : (store.view.matchTaker ⟨id, side, price, false⟩ quantity).remaining ≠ 0 ∧ tif = .gtc)
    {matched : IntrusiveStore} (kept : Valid capacity matched)
    (left : matched.view = store.view.setSide side.opposite
      (store.view.matchTaker ⟨id, side, price, false⟩ quantity).left) :
    let remainder := (store.view.matchTaker ⟨id, side, price, false⟩ quantity).remaining
    (0 < matched.pools.orders.available ∧ 0 < matched.pools.nodes.available) ∧
      (matched.rest id side price remainder).2 = true ∧
      Valid capacity (matched.rest id side price remainder).1 ∧
      (matched.rest id side price remainder).1.view =
        matched.view.rest ⟨id, side, price, remainder⟩ := by
  have room := valid.room storable rests kept left
  obtain ⟨unused, positive, apart⟩ := valid.book.remainder fresh rests.1
  rw [← left] at unused apart
  obtain ⟨_, orders, nodes⟩ := kept.counts
  exact ⟨⟨by omega, by omega⟩, kept.rest room unused positive apart⟩

theorem Valid.addLimit (accepted : store.refuses (.addLimit id side price quantity tif) = false) :
    Agrees (Valid capacity) view (store.addLimit ⟨id, side, price, quantity, tif⟩)
      (store.view.addLimit id side price quantity tif) := by
  refine (refines capacity).addLimit_checked valid accepted
    (fun matched left => (matched.rest id side price left).1) ?_
  intro storable known rests matched kept left
  obtain ⟨_, _, rested⟩ := valid.rest_succeeds storable known rests kept left
  exact rested

end

theorem Valid.addMarket (id : OrderId) (side : Side) (quantity : Quantity) :
    Agrees (Valid capacity) view (store.addMarket id side quantity)
      (store.view.addMarket id side quantity) :=
  (refines capacity).addMarket valid id side quantity

theorem Valid.cancel (id : OrderId) :
    Agrees (Valid capacity) view (store.cancel id) (store.view.cancel id) := by
  have erased := (refines capacity).cancel valid (store.pools.index.find? id) _ rfl
    (fun _ found => valid.eraseIndexedOrder found)
  rw [IntrusiveStore.cancel]
  cases found : store.pools.index.find? id <;> simpa only [found] using erased

/-- Erasing an order makes room, so that the pre-check of adding it back passes. -/
theorem Valid.readd_storable {id : OrderId} {loc : Locator}
    (found : store.pools.index.find? id = some loc) (side : Side) (newPrice : Price)
    (newQuantity : Quantity) (tif : TimeInForce) :
    (store.eraseIndexedOrder id loc).canStoreLimit side newPrice newQuantity tif = true := by
  obtain ⟨erased, view⟩ := valid.eraseIndexedOrder found
  have known : store.view.contains id = true := by
    rw [← valid.contains_eq, IntrusiveStore.contains, OrderedMap.contains, found]
    rfl
  have shorter : (store.view.remove id).restingOrders.length <
      store.view.restingOrders.length := by
    obtain ⟨order, member, same⟩ := mem_map.mp (Book.contains_iff.mp known)
    rw [Book.restingOrders, Book.remove, ← filter_append]
    apply length_filter_lt_length_iff_exists.mpr
    exact ⟨order, member, by simpa using same⟩
  have before := valid.counts.1
  have after := erased.counts.1
  have bound := valid.orderCount_le
  rw [view] at after
  rw [← Bool.not_eq_false]
  intro refused
  have full := ((erased.canStoreLimit_iff id side newPrice newQuantity tif).mp refused).2.1
  omega

theorem Valid.modify_accepted (id : OrderId) (newPrice : Price) (newQuantity : Quantity) :
    store.refuses (.modify id newPrice newQuantity) = false := by
  rw [refuses]
  split
  · rfl
  · rename_i loc found
    rw [valid.readd_storable found]
    split <;> rfl

theorem Valid.modify (id : OrderId) (newPrice : Price) (newQuantity : Quantity) :
    Agrees (Valid capacity) view (store.modify id newPrice newQuantity)
      (store.view.modify id newPrice newQuantity) := by
  have same := valid.contains_eq id
  rw [IntrusiveStore.contains, OrderedMap.contains] at same
  rw [IntrusiveStore.modify, Book.modify]
  cases found : store.pools.index.find? id with
  | none =>
    rw [found] at same
    rw [Book.find?_eq_none.mpr same.symm]
    exact ⟨valid, rfl, rfl⟩
  | some loc =>
    obtain ⟨erased, removed⟩ := valid.eraseIndexedOrder found
    obtain ⟨cells, placed⟩ := valid.placed
    obtain ⟨cell, _, _, _, _, _, located, rfl⟩ := placed.locate found
    rw [located.find?_order placed valid.book]
    simp only [inPlace, located.orderAt placed, Option.map_some, Option.getD_some,
      ← located.price, ← located.side]
    split
    · exact ⟨erased, removed, rfl⟩
    · rename_i positive
      split
      · have written := valid.setQuantity found ((quantity_pos newQuantity).mpr positive)
        exact ⟨written.1, written.2, rfl⟩
      · rw [← removed]
        apply Valid.addLimit erased
        rw [refuses, valid.readd_storable found]
        simp

/-- Every accepted call keeps the invariant and does what the priority book does. -/
theorem Valid.apply {op : BookOp} (accepted : store.refuses op = false) :
    Agrees (Valid capacity) view (store.apply op) (store.view.apply op) := by
  cases op with
  | addLimit id side price quantity tif => exact (valid.addLimit accepted).reply BookReply.traded
  | addMarket id side quantity => exact (valid.addMarket id side quantity).reply BookReply.traded
  | cancel id => exact (valid.cancel id).reply BookReply.cancelled
  | modify id newPrice newQuantity =>
    exact (valid.modify id newPrice newQuantity).reply BookReply.traded

/-- A refused call changes nothing. -/
theorem Valid.refused_unchanged {op : BookOp} (refused : store.refuses op = true) :
    store.apply op = (store, .traded []) := by
  cases op with
  | addLimit id side price quantity tif =>
    rw [refuses, Bool.and_eq_true] at refused
    rw [IntrusiveStore.apply, IntrusiveStore.addLimit, if_pos refused.2]
  | modify id newPrice newQuantity =>
    rw [valid.modify_accepted] at refused
    cases refused
  | _ => cases refused

end Calls

section Observe

variable {capacity : Nat} {store : IntrusiveStore} (valid : Valid capacity store)

include valid

theorem Valid.levelMap (side : Side) :
    LevelMap store.view (store.levels side) store.pools.levelOrders where
  orders := view_side store side
  occupied := fun entry member => (valid.levels_filed side entry member).1
  filed := fun entry member => (valid.levels_filed side entry member).2

omit valid in
theorem levelTotal_eq (pools : Pools) (level : Level) :
    pools.levelTotal level = totalQuantity (pools.levelOrders level) := by
  have folded := totalQuantity_foldl (pools.levelOrders level) 0
  rw [UInt64.zero_add] at folded
  exact folded

theorem Valid.quantityAt_eq (side : Side) (price : Price) :
    store.quantityAt side price = store.view.quantityAt side price := by
  rw [(valid.levelMap side).quantityAt, IntrusiveStore.quantityAt]
  cases (store.levels side).find? price with
  | none => rfl
  | some level => exact levelTotal_eq store.pools level

theorem Valid.collectLevels (side : Side) :
    IntrusiveStore.collectLevels store.pools (store.levels side) = store.view.levelViews side := by
  rw [(valid.levelMap side).levelViews valid.book, IntrusiveStore.collectLevels]
  apply map_congr_left
  intro entry _
  rw [levelTotal_eq]

theorem Valid.fillCount_eq (takerSide : Side) (limit : Price) (isMarket : Bool)
    (quantity : Quantity) :
    store.fillCount takerSide limit isMarket quantity =
      store.view.fillCount takerSide limit isMarket quantity :=
  congrArg Tally.count (valid.visit_eq tallies_trades ⟨0, takerSide, limit, isMarket⟩ quantity)

/-- Every observer answers as the priority book does. -/
theorem Valid.observe_eq : store.observe = store.view.observe := by
  apply Observation.ext
  · rfl
  · exact valid.counts.1
  · exact funext valid.contains_eq
  · exact (valid.levelMap .buy).bestPrice
  · exact (valid.levelMap .sell).bestPrice
  · exact funext (fun side => funext (valid.quantityAt_eq side))
  · exact valid.collectLevels .buy
  · exact valid.collectLevels .sell
  · funext takerSide limit isMarket quantity
    exact valid.fillCount_eq takerSide limit isMarket quantity

end Observe

theorem lockstep (capacity : Nat) :
    Lockstep.Refinement apply refuses (Valid capacity) view observe where
  accepted := fun _ _ valid accepted => valid.apply accepted
  refused := fun _ _ valid refused => valid.refused_unchanged refused
  observed := fun _ valid => valid.observe_eq

/-- An intrusive book over pools of the given capacity and a baseline book after the
same calls, less the refused ones. -/
def drive (capacity : Nat) (ops : List BookOp) : IntrusiveStore × BaselineStore :=
  Lockstep.drive apply refuses (empty capacity) ops

section Refusal

variable {capacity : Nat} {books : IntrusiveStore × BaselineStore}

/-- The refusal of a new order, told from the baseline book's match. -/
theorem refuses_iff (pair : Lockstep.Matches (Valid capacity) view books) {id : OrderId}
    (fresh : books.1.contains id = false) (side : Side) (price : Price) (quantity : Quantity)
    (tif : TimeInForce) :
    let matched := matchIncoming books.2 id side price false quantity
      (fun store => store.contains id) BaselineStore.matchBaseline
    books.1.refuses (.addLimit id side price quantity tif) = true ↔
      tif = .gtc ∧ books.1.orderCount = capacity ∧ matched.2.remainder ≠ 0 ∧
        ∀ order ∈ books.2.restingOrders, matched.1.contains order.id = true := by
  have unknown : books.2.view.contains id = false := by
    rw [← pair.same, ← pair.store.contains_eq]
    exact fresh
  obtain ⟨after, kept, left, result⟩ :=
    BaselineStore.refines.incoming_fresh pair.baseline unknown side price false quantity
  have used := pair.baseline.book.filled_nil_iff ⟨id, side, price, false⟩ quantity
  simp only at used
  have asked : (books.1.refuses (.addLimit id side price quantity tif) = true) ↔
      books.1.canStoreLimit side price quantity tif = false := by
    rw [refuses, fresh]
    simp
  have exactly := pair.store.canStoreLimit_iff id side price quantity tif
  simp only [pair.same, used] at exactly
  rw [result]
  simp only [asked, exactly, kept.contains_eq, left]
  exact Iff.rfl

/-- A pre-check that passes is borne out: the remainder finds a free order slot and a
free node. -/
theorem rest_finds_slots {store : IntrusiveStore} (valid : Valid capacity store) {id : OrderId}
    {side : Side} {price : Price} {quantity : Quantity} {tif : TimeInForce}
    (storable : store.canStoreLimit side price quantity tif = true) :
    let matched := matchIncoming store id side price false quantity
      (fun store => store.contains id) matchOpposite
    shouldRestLimit matched.2 tif = true →
      0 < matched.1.pools.orders.available ∧ 0 < matched.1.pools.nodes.available ∧
        (matched.1.rest id side price matched.2.remainder).2 = true := by
  cases known : store.view.contains id with
  | true =>
    rw [(refines capacity).incoming_duplicate valid known]
    intro _ rests
    cases rests
  | false =>
    obtain ⟨matched, kept, left, result⟩ :=
      (refines capacity).incoming_fresh valid known side price false quantity
    rw [result]
    intro _ rests
    obtain ⟨⟨orders, nodes⟩, rested, _⟩ :=
      valid.rest_succeeds storable known (shouldRestLimit_iff.mp rests) kept left
    exact ⟨orders, nodes, rested⟩

end Refusal

/-- Intrusive storage refines the baseline book up to its capacity. After any calls
the observers agree and no slot of either pool is lost; an accepted call answers and
changes the book as the baseline book does; a new order is refused exactly when it is
GTC, the book is full, and the baseline book's match would leave a remainder but use up
no maker; a refused call changes nothing; a pre-check that passes is borne out; and no
modify is refused. -/
theorem drive_refines_to_capacity (capacity : Nat) (ops : List BookOp) :
    let store := (drive capacity ops).1
    let baseline := (drive capacity ops).2
    store.observe = baseline.observe ∧
      (∀ op, store.refuses op = false → (store.apply op).2 = (baseline.apply op).2 ∧
        (store.apply op).1.observe = (baseline.apply op).1.observe) ∧
      (∀ id side price quantity tif, store.contains id = false →
        let matched := matchIncoming baseline id side price false quantity
          (fun store => store.contains id) BaselineStore.matchBaseline
        (store.refuses (.addLimit id side price quantity tif) = true ↔
          tif = .gtc ∧ store.orderCount = capacity ∧ matched.2.remainder ≠ 0 ∧
            ∀ order ∈ baseline.restingOrders, matched.1.contains order.id = true)) ∧
      (∀ op, store.refuses op = true → store.apply op = (store, .traded [])) ∧
      (∀ id side price quantity tif, store.canStoreLimit side price quantity tif = true →
        let matched := matchIncoming store id side price false quantity
          (fun store => store.contains id) matchOpposite
        shouldRestLimit matched.2 tif = true →
          0 < matched.1.pools.orders.available ∧ 0 < matched.1.pools.nodes.available ∧
            (matched.1.rest id side price matched.2.remainder).2 = true) ∧
      (∀ id newPrice newQuantity, store.refuses (.modify id newPrice newQuantity) = false) ∧
      store.pools.orders.available + store.orderCount = capacity ∧
      store.pools.nodes.available + store.orderCount = capacity := by
  have pair := Lockstep.drive_matches (lockstep capacity) (valid_empty capacity) rfl ops
  refine ⟨pair.observe_eq (lockstep capacity), ?_, ?_, ?_, ?_, ?_, pair.store.counts.2⟩
  · intro op accepted
    have applied := pair.accepted (lockstep capacity) accepted
    exact ⟨applied.1, applied.2.observe_eq (lockstep capacity)⟩
  · intro id side price quantity tif fresh
    exact refuses_iff pair fresh side price quantity tif
  · intro op refused
    exact pair.store.refused_unchanged refused
  · intro id side price quantity tif storable
    exact rest_finds_slots pair.store storable
  · intro id newPrice newQuantity
    exact pair.store.modify_accepted id newPrice newQuantity

example : (drive 1 [.addLimit 1 .buy 10 5 .gtc]).1.refuses (.addLimit 2 .buy 9 1 .gtc) = true := by
  decide

end Qsl.IntrusiveStore
