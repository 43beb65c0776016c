import Qsl.ContiguousRefinement
import Qsl.Lockstep

namespace Qsl.ContiguousStore

open List

variable {price : Price} {id : OrderId}

section Count

variable {σ τ : Type} {levels : Nat → FlatLevel}

/-- A visitor that works on a projection of another's state. -/
theorem visit_map (project : σ → τ) {fn : Nat → FlatLevel → σ → σ × Bool}
    {fn' : Nat → FlatLevel → τ → τ × Bool}
    (same : ∀ slot level captured, fn' slot level (project captured) =
      (project (fn slot level captured).1, (fn slot level captured).2))
    (list : List Nat) (captured : σ) :
    visit fn' levels list (project captured) = project (visit fn levels list captured) := by
  induction list generalizing captured with
  | nil => rfl
  | cons slot worse ih =>
    rw [visit, visit, same]
    rcases fn slot (levels slot) captured with ⟨captured', more⟩
    cases more
    · rfl
    · exact ih captured'

theorem take_nothing (quantity : Quantity) : quantity - min quantity 0 = quantity := by
  rw [quantity_min]
  split
  · rename_i none
    have zero : quantity = 0 := UInt32.le_antisymm none UInt32.zero_le
    rw [zero]
    rfl
  · exact UInt32.sub_zero quantity

theorem simulateLevel_eq (orders : List FlatOrder) (quantity : Quantity) :
    simulateLevel orders quantity = (countFlatLevel orders quantity).2 := by
  induction orders generalizing quantity with
  | nil => rfl
  | cons order queued ih =>
    rw [simulateLevel, countFlatLevel]
    split
    · rfl
    · split
      · rename_i dead
        rw [dead, take_nothing, ih]
      · exact ih _

/-- Counting at one level is the number of trades of the walk over its live orders. -/
theorem countFlatLevel_eq {taker : Taker} (crossing : taker.crosses price = true) (side : Side)
    (orders : List FlatOrder) (quantity : Quantity) :
    countFlatLevel orders quantity =
      ((sweep taker (liveOrders side price orders) quantity).trades.length,
        (sweep taker (liveOrders side price orders) quantity).remaining) := by
  induction orders generalizing quantity with
  | nil => rfl
  | cons order queued ih =>
    rw [countFlatLevel]
    by_cases filled : quantity = 0
    · rw [if_pos filled, filled, sweep_zero]
      rfl
    rw [if_neg filled]
    by_cases dead : order.quantity = 0
    · have dropped := liveOrders_kill side price (FlatOrder.isLive_false_iff.mpr dead) [] queued
      rw [nil_append] at dropped
      rw [if_pos dead, ih, dropped]
      rfl
    · have first := liveOrders_split side price (FlatOrder.isLive_iff.mpr dead) [] queued
      rw [nil_append] at first
      rw [if_neg dead, ih, first]
      let maker : Order := ⟨order.id, side, price, order.quantity⟩
      have crosses : taker.crosses maker.price = true := crossing
      obtain ⟨trades, _, remaining⟩ :=
        sweep_cons taker (liveOrders side price queued) filled crosses
      change _ = ((sweep taker (maker :: liveOrders side price queued) quantity).trades.length,
        (sweep taker (maker :: liveOrders side price queued) quantity).remaining)
      rw [trades, remaining, length_cons]

theorem countVisit_eq (taker : Taker) (side : Side) {list : List Nat}
    (occupied : ∀ slot ∈ list, (levels slot).Sound ∧ (levels slot).alive ≠ 0)
    (query : MatchQuery) (crosses : ∀ price, taker.crosses price =
      canMatchLevel query.takerIsBuy query.isMarket query.limit price)
    (state : Nat × Quantity) :
    let swept := sweep taker (list.flatMap
      (fun slot => liveOrders side (priceOf slot) (levels slot).orders)) state.2
    visit (countVisit query) levels list state =
      (state.1 + swept.trades.length, swept.remaining) := by
  induction list generalizing state with
  | nil => rfl
  | cons slot worse ih =>
    obtain ⟨sound, alive⟩ := occupied slot mem_cons_self
    have rest := ih (fun other member => occupied other (mem_cons_of_mem _ member))
    let orders := liveOrders side (priceOf slot) (levels slot).orders
    have filed : ∀ order ∈ orders, order.price = priceOf slot := by
      intro order member
      obtain ⟨flat, _, rfl⟩ := mem_map.mp member
      rfl
    rw [visit, flatMap_cons, countVisit, ← crosses]
    by_cases filled : state.2 = 0
    · rw [if_pos (Or.inl filled), filled, sweep_zero]
      exact Prod.ext rfl filled
    cases crossing : taker.crosses (priceOf slot) with
    | true =>
      have whole := sweep_level_append crossing filed (worse.flatMap
        (fun slot => liveOrders side (priceOf slot) (levels slot).orders)) state.2
      have dropped : liveOrders side (priceOf slot)
          ((levels slot).orders.drop (levels slot).head) = orders := by
        rw [liveOrders_eq, sound.live_drop]
        rfl
      have level := countFlatLevel_eq crossing side
        ((levels slot).orders.drop (levels slot).head) state.2
      rw [dropped] at level
      rw [if_neg (by simp [filled])]
      simp only [level]
      rw [whole.1, whole.2.2, length_append, ← Nat.add_assoc]
      split
      · exact rest _
      · rename_i stopped
        have done : (sweep taker orders state.2).remaining = 0 := by simpa using stopped
        rw [done, sweep_zero]
        rfl
    | false =>
      have nonempty : orders ≠ [] := by
        intro none
        have dead : (levels slot).live = [] := map_eq_nil_iff.mp none
        have counted := sound.counted
        rw [dead] at counted
        exact alive counted
      obtain ⟨first, queued, shape⟩ := exists_cons_of_ne_nil nonempty
      have stop : taker.crosses first.price = false := by
        rw [filed first (by rw [shape]; exact mem_cons_self)]
        exact crossing
      rw [if_pos (Or.inr rfl)]
      change _ = (state.1 + (sweep taker (orders ++ _) state.2).trades.length,
        (sweep taker (orders ++ _) state.2).remaining)
      rw [shape, cons_append, sweep_stop taker (Or.inr stop)]
      rfl

end Count

section Queries

variable {store : ContiguousStore}

theorem polarity (side : Side) : (!(side == .buy)) = (side.opposite == .buy) := by
  cases side <;> rfl

section

variable (valid : store.Valid)

include valid

theorem Valid.occupied_sound (side : Side) :
    ∀ slot ∈ occupied side (store.sideRef side).bits,
      ((store.sideRef side).levels slot).Sound ∧
        ((store.sideRef side).levels slot).alive ≠ 0 := by
  intro slot member
  obtain ⟨known, marked⟩ := mem_filter.mp member
  have inside := mem_slots.mp known
  exact ⟨((valid.sides side).tidy slot inside).toSound,
    ((valid.sides side).marked slot inside).mp marked⟩

/-- The count over a side is that of the walk over it. -/
theorem Valid.count_eq (taker : Taker) (quantity : Quantity) :
    forEachOccupied (store.sideRef taker.side.opposite) (!(taker.side == .buy))
      (countVisit ⟨taker.side == .buy, taker.limit, taker.isMarket, quantity⟩) (0, quantity) =
      ((store.view.matchTaker taker quantity).trades.length,
        (store.view.matchTaker taker quantity).remaining) := by
  have counted := countVisit_eq taker taker.side.opposite
    (valid.occupied_sound taker.side.opposite)
    ⟨taker.side == .buy, taker.limit, taker.isMarket, quantity⟩ (fun _ => rfl) (0, quantity)
  rw [polarity, forEachOccupied_eq, counted, Book.matchTaker, view_side,
    (valid.sides taker.side.opposite).orders_occupied, Nat.zero_add]

theorem Valid.fillCount_eq (takerSide : Side) (limit : Price) (isMarket : Bool)
    (quantity : Quantity) :
    store.fillCount takerSide limit isMarket quantity =
      store.view.fillCount takerSide limit isMarket quantity :=
  congrArg Prod.fst (valid.count_eq ⟨0, takerSide, limit, isMarket⟩ quantity)

/-- The pre-check predicts the remainder of the real match. -/
theorem Valid.simulateRemainder_eq (id : OrderId) (side : Side) (limit : Price)
    (quantity : Quantity) :
    store.simulateRemainder side limit quantity =
      (store.view.matchTaker ⟨id, side, limit, false⟩ quantity).remaining := by
  have counted := congrArg Prod.snd (valid.count_eq ⟨id, side, limit, false⟩ quantity)
  rw [polarity, forEachOccupied_eq] at counted
  rw [simulateRemainder, polarity, forEachOccupied_eq]
  refine Eq.trans (visit_map Prod.snd ?_ _ (0, quantity)) counted
  intro slot level state
  rw [simulateVisit, countVisit, simulateLevel_eq]
  split <;> rfl

theorem Valid.canStoreLimit_iff (id : OrderId) (side : Side) (price : Price) (quantity : Quantity)
    (tif : TimeInForce) :
    store.canStoreLimit side price quantity tif = true ↔
      tif = .ioc ∨ inBand price = true ∨
        (store.view.matchTaker ⟨id, side, price, false⟩ quantity).remaining = 0 := by
  rw [canStoreLimit, valid.simulateRemainder_eq id]
  split
  · rename_i passes
    exact iff_of_true rfl (passes.elim Or.inl (fun banded => Or.inr (Or.inl banded)))
  · rename_i outside
    rw [not_or] at outside
    simp [outside.1, outside.2]

end

end Queries

def apply (store : ContiguousStore) : BookOp → ContiguousStore × BookReply
  | .addLimit id side price quantity tif =>
    let (after, trades) := store.addLimit ⟨id, side, price, quantity, tif⟩
    (after, .traded trades)
  | .addMarket id side quantity =>
    let (after, trades) := store.addMarket id side quantity
    (after, .traded trades)
  | .cancel id =>
    let (after, found) := store.cancel id
    (after, .cancelled found)
  | .modify id newPrice newQuantity =>
    let (after, trades) := store.modify id newPrice newQuantity
    (after, .traded trades)

def observe (store : ContiguousStore) : Observation where
  restingOrders := store.restingOrders
  orderCount := store.orderCount
  contains := store.contains
  bestBid := store.bestBid
  bestAsk := store.bestAsk
  quantityAt := store.quantityAt
  bidLevels := store.bidLevels
  askLevels := store.askLevels
  fillCount := store.fillCount

/-- The calls this storage turns down: a new order whose remainder it cannot store,
or a modify it cannot apply. -/
def refuses (store : ContiguousStore) : BookOp → Bool
  | .addLimit id side price quantity tif =>
    !store.contains id && !store.canStoreLimit side price quantity tif
  | .modify id newPrice newQuantity => !store.canApplyModify id newPrice newQuantity
  | _ => false

theorem refines : Refines Valid view (fun id store => store.contains id) matchOpposite where
  book := fun _ valid => valid.book
  contains := fun _ id valid => valid.contains_eq id
  matched := fun _ _ _ valid sided => valid.matchOpposite sided

section Calls

variable {store : ContiguousStore} (valid : store.Valid)

include valid

theorem Valid.addLimit {side : Side} {quantity : Quantity} {tif : TimeInForce}
    (accepted : store.refuses (.addLimit id side price quantity tif) = false) :
    Agrees Valid view (store.addLimit ⟨id, side, price, quantity, tif⟩)
      (store.view.addLimit id side price quantity tif) := by
  refine refines.addLimit_checked valid accepted
    (fun matched left => (matched.rest id side price left).1) ?_
  intro storable known rests matched kept left
  obtain ⟨unused, positive, apart⟩ := valid.book.remainder known rests.1
  rw [← left] at unused apart
  have banded : inBand price = true := by
    rcases (valid.canStoreLimit_iff id side price quantity tif).mp storable with
      ioc | banded | filled
    · cases rests.2.symm.trans ioc
    · exact banded
    · exact absurd filled rests.1
  exact kept.rest banded unused positive apart

theorem Valid.addMarket (id : OrderId) (side : Side) (quantity : Quantity) :
    Agrees Valid view (store.addMarket id side quantity)
      (store.view.addMarket id side quantity) :=
  refines.addMarket valid id side quantity

theorem Valid.cancel (id : OrderId) :
    Agrees Valid view (store.cancel id) (store.view.cancel id) := by
  have erased := refines.cancel valid (store.index.find? id) _ rfl
    (fun _ found => valid.removeResting (valid.indexed.find?.mp found))
  rw [ContiguousStore.cancel]
  cases found : store.index.find? id <;> simpa only [found] using erased

/-- Once the order is out, the pre-check of the re-add answers as it did before. -/
theorem Valid.readd_accepted {loc : Locator} {order : Order} {newPrice : Price}
    {newQuantity : Quantity} (found : store.view.find? id = some order)
    (sided : order.side = loc.side) (applicable : inBand newPrice = true ∨
      store.simulateRemainder loc.side newPrice newQuantity = 0) :
    (store.cancel id).1.refuses (.addLimit id loc.side newPrice newQuantity .gtc) = false := by
  obtain ⟨kept, after, _⟩ := valid.cancel id
  have present : store.view.contains id = true := by
    cases known : store.view.contains id with
    | true => rfl
    | false =>
      rw [Book.find?_eq_none.mpr known] at found
      cases found
  have removed : (store.cancel id).1.view = store.view.remove id := by
    rw [after, Book.cancel, present]
    rfl
  obtain ⟨opposite, absent⟩ := valid.book.remove_opposite found
  rw [sided] at opposite
  have storable : (store.cancel id).1.canStoreLimit loc.side newPrice newQuantity .gtc = true := by
    apply (kept.canStoreLimit_iff id loc.side newPrice newQuantity .gtc).mpr
    rcases applicable with banded | filled
    · exact Or.inr (Or.inl banded)
    · rw [valid.simulateRemainder_eq id] at filled
      rw [removed, Book.matchTaker]
      exact Or.inr (Or.inr (by rw [opposite]; exact filled))
  rw [refuses, storable]
  simp

theorem Valid.modify {newPrice : Price} {newQuantity : Quantity}
    (accepted : store.refuses (.modify id newPrice newQuantity) = false) :
    Agrees Valid view (store.modify id newPrice newQuantity)
      (store.view.modify id newPrice newQuantity) := by
  have applicable : store.canApplyModify id newPrice newQuantity = true := by
    simpa [refuses] using accepted
  have cancelled := valid.cancel id
  have same := valid.contains_eq id
  rw [ContiguousStore.contains, OrderedMap.contains] at same
  rw [ContiguousStore.modify, Book.modify]
  cases found : store.index.find? id with
  | none =>
    rw [found] at same
    rw [Book.find?_eq_none.mpr same.symm]
    exact ⟨valid, rfl, rfl⟩
  | some loc =>
    obtain ⟨flat, pointed, order⟩ := valid.find?_order (valid.indexed.find?.mp found)
    have removed : (store.cancel id).1.view = store.view.remove id := by
      rw [cancelled.view, Book.cancel, ← same, found]
      rfl
    rw [order, applicable]
    simp only [Bool.not_true, Bool.false_eq_true, if_false, reducesInPlace, pointed,
      Option.map_some, Option.getD_some, decide_eq_true_eq]
    split
    · exact ⟨cancelled.1, removed, rfl⟩
    · rename_i positive
      split
      · have written := valid.setQuantity (valid.indexed.find?.mp found)
          ((quantity_pos newQuantity).mpr positive)
        exact ⟨written.1, written.2, rfl⟩
      · rename_i moved
        have fits : inBand newPrice = true ∨
            store.simulateRemainder loc.side newPrice newQuantity = 0 := by
          simpa [canApplyModify, found, positive, reducesInPlace, pointed, moved] using applicable
        rw [← removed]
        exact Valid.addLimit cancelled.1 (valid.readd_accepted order rfl fits)

/-- Every accepted call keeps the invariant and does what the priority book does. -/
theorem Valid.apply {op : BookOp} (accepted : store.refuses op = false) :
    Agrees Valid view (store.apply op) (store.view.apply op) := by
  cases op with
  | addLimit id side price quantity tif => exact (valid.addLimit accepted).reply BookReply.traded
  | addMarket id side quantity => exact (valid.addMarket id side quantity).reply BookReply.traded
  | cancel id => exact (valid.cancel id).reply BookReply.cancelled
  | modify id newPrice newQuantity => exact (valid.modify accepted).reply BookReply.traded

end Calls

section Refusal

variable {store : ContiguousStore}

/-- A refused call changes nothing. -/
theorem refused_unchanged {op : BookOp} (refused : store.refuses op = true) :
    store.apply op = (store, .traded []) := by
  cases op with
  | addLimit id side price quantity tif =>
    rw [refuses, Bool.and_eq_true] at refused
    rw [apply, ContiguousStore.addLimit, if_pos refused.2]
  | modify id newPrice newQuantity =>
    rw [refuses] at refused
    rw [apply, ContiguousStore.modify, refused]
    cases store.index.find? id <;> rfl
  | _ => cases refused

theorem view_banded (store : ContiguousStore) :
    ∀ order ∈ store.view.restingOrders, inBand order.price = true := by
  intro order member
  obtain ⟨side, inside⟩ := Book.mem_restingOrders.mp member
  rw [view_side, sideOrders] at inside
  obtain ⟨slot, known, listed⟩ := mem_flatMap.mp inside
  obtain ⟨flat, _, rfl⟩ := mem_map.mp listed
  exact inBand_priceOf (mem_slots.mp known)

/-- A remainder the pre-check cannot place would rest in the book. -/
theorem rests_outside {book : Book} {side : Side} {quantity : Quantity} (tif : TimeInForce)
    (fresh : book.contains id = false) (gtc : tif ≠ .ioc)
    (unfilled : (book.matchTaker ⟨id, side, price, false⟩ quantity).remaining ≠ 0) :
    ∃ order ∈ (book.addLimit id side price quantity tif).1.restingOrders,
      order.id = id ∧ order.price = price := by
  have keeps : tif = .gtc := by
    cases tif
    · rfl
    · exact absurd rfl gtc
  rw [Book.addLimit, fresh]
  simp only [Bool.false_eq_true, if_false, if_pos (And.intro unfilled keeps)]
  refine ⟨_, Book.mem_restingOrders.mpr ⟨side, Book.mem_rest.mpr (Or.inl ⟨rfl, rfl⟩)⟩, rfl, rfl⟩

/-- A refusal means the book would rest an order of that id outside the band. -/
theorem Valid.refused_outside (valid : store.Valid) {op : BookOp}
    (refused : store.refuses op = true) :
    ∃ order ∈ (store.view.apply op).1.restingOrders,
      order.id = op.id ∧ inBand order.price = false := by
  cases op with
  | addLimit id side price quantity tif =>
    rw [refuses, Bool.and_eq_true, valid.contains_eq, Bool.not_eq_true', Bool.not_eq_true']
      at refused
    obtain ⟨fresh, full⟩ := refused
    have outside := mt (valid.canStoreLimit_iff id side price quantity tif).mpr
      (by rw [full]; exact Bool.false_ne_true)
    rw [not_or, not_or] at outside
    obtain ⟨order, member, same, priced⟩ := rests_outside tif fresh outside.1 outside.2.2
    exact ⟨order, member, same, by rw [priced]; simpa using outside.2.1⟩
  | modify id newPrice newQuantity =>
    rw [refuses, Bool.not_eq_true', canApplyModify] at refused
    cases found : store.index.find? id with
    | none =>
      rw [found] at refused
      cases refused
    | some loc =>
      obtain ⟨flat, pointed, order⟩ := valid.find?_order (valid.indexed.find?.mp found)
      simp only [found, reducesInPlace, pointed, Option.map_some, Option.getD_some,
        decide_eq_true_eq] at refused
      split at refused
      · cases refused
      · rename_i positive
        split at refused
        · cases refused
        · rename_i moved
          split at refused
          · cases refused
          · rename_i outside
            rw [decide_eq_false_iff_not, valid.simulateRemainder_eq id] at refused
            obtain ⟨opposite, absent⟩ := valid.book.remove_opposite order
            have unfilled : ((store.view.remove id).matchTaker
                ⟨id, loc.side, newPrice, false⟩ newQuantity).remaining ≠ 0 := by
              rw [Book.matchTaker]
              change (sweep _ ((store.view.remove id).side loc.side.opposite) _).remaining ≠ 0
              rw [opposite]
              exact refused
            obtain ⟨rested, member, same, priced⟩ :=
              rests_outside .gtc absent (by decide) unfilled
            refine ⟨rested, ?_, same, by rw [priced]; simpa using outside⟩
            change rested ∈ (store.view.modify id newPrice newQuantity).1.restingOrders
            rw [Book.modify, order]
            simp only [if_neg positive, if_neg moved]
            exact member
  | _ => cases refused

/-- Refusal is exact: the book would rest that order outside the band. -/
theorem Valid.refuses_iff (valid : store.Valid) (op : BookOp) :
    store.refuses op = true ↔
      ∃ order ∈ (store.view.apply op).1.restingOrders,
        order.id = op.id ∧ inBand order.price = false := by
  constructor
  · exact valid.refused_outside
  · intro ⟨order, member, _, outside⟩
    by_contra accepted
    have agrees := valid.apply (by simpa using accepted : store.refuses op = false)
    rw [← agrees.view] at member
    have inside := view_banded _ order member
    rw [outside] at inside
    cases inside

end Refusal

section Observe

variable {store : ContiguousStore}

theorem Valid.live_drop (valid : store.Valid) (side : Side) :
    (occupied side (store.sideRef side).bits).flatMap (fun slot => liveOrders side (priceOf slot)
        (((store.sideRef side).levels slot).orders.drop ((store.sideRef side).levels slot).head)) =
      store.view.side side := by
  rw [view_side, (valid.sides side).orders_occupied]
  apply flatMap_congr
  intro slot member
  rw [liveOrders_eq, (valid.occupied_sound side slot member).1.live_drop]
  rfl

theorem Valid.appendOrders_eq (valid : store.Valid) (side : Side) :
    appendOrders (store.sideRef side) (side == .buy) side = store.view.side side := by
  rw [appendOrders, forEachOccupied_eq, visit_append (store.sideRef side).levels
    (fun slot level => liveOrders side (priceOf slot) (level.orders.drop level.head)),
    nil_append, valid.live_drop]

/-- The best slot's price is that of the first order in priority. -/
theorem Valid.bestSlot_eq (valid : store.Valid) (side : Side) :
    (bestSlot (store.sideRef side) (side == .buy)).map priceOf = store.view.bestPrice side := by
  have leads := bestSlot_leads (store.sideRef side) side
  rw [Book.bestPrice, view_side, (valid.sides side).orders_occupied]
  cases found : bestSlot (store.sideRef side) (side == .buy) with
  | none =>
    rw [found] at leads
    rw [leads]
    rfl
  | some slot =>
    rw [found] at leads
    have listed : slot ∈ occupied side (store.sideRef side).bits := by
      rw [leads]
      exact mem_cons_self
    obtain ⟨sound, alive⟩ := valid.occupied_sound side slot listed
    obtain ⟨front, maker, queued, shape, _, dead, live⟩ := sound.shape alive
    rw [leads, flatMap_cons, shape, liveOrders_split _ _ live,
      liveOrders_eq side (priceOf slot) front, dead]
    rfl

theorem levelTotal_eq (side : Side) (price : Price) {level : FlatLevel} (sound : level.Sound) :
    levelTotal level = totalQuantity (liveOrders side price level.orders) := by
  -- a tombstone adds nothing to the running total
  have folded : ∀ (orders : List FlatOrder) (total : QuantityTotal),
      orders.foldl (fun total order => total + order.quantity.toUInt64) total =
        total + totalQuantity (liveOrders side price orders) := by
    intro orders
    induction orders with
    | nil => exact fun total => (UInt64.add_zero total).symm
    | cons order queued ih =>
      intro total
      rw [foldl_cons, ih]
      cases alive : order.isLive with
      | true =>
        have first := liveOrders_split side price alive [] queued
        rw [nil_append] at first
        rw [first, UInt64.add_assoc]
        rfl
      | false =>
        have dropped := liveOrders_kill side price alive [] queued
        rw [nil_append] at dropped
        rw [dropped, FlatOrder.isLive_false_iff.mp alive]
        exact congrArg (· + _) (UInt64.add_zero total)
  have same : liveOrders side price (level.orders.drop level.head) =
      liveOrders side price level.orders := by
    rw [liveOrders_eq, sound.live_drop]
    rfl
  rw [levelTotal, folded, UInt64.zero_add, same]

theorem Valid.quantityAt_eq (valid : store.Valid) (side : Side) (price : Price) :
    store.quantityAt side price = store.view.quantityAt side price := by
  rw [ContiguousStore.quantityAt, Book.quantityAt]
  cases banded : inBand price with
  | true =>
    have key : (store.view.side side).filter (fun order => order.price = price) =
        priceOrders side (store.sideRef side).levels price := by
      rw [view_side, sideOrders_prices]
      exact Buckets.filter_key (prices_sorted side) (prices_filed side _)
        ((mem_prices side).mpr banded)
    rw [key]
    exact levelTotal_eq side price ((valid.sides side).tidy _ (slotOf_lt banded)).toSound
  | false =>
    have none : (store.view.side side).filter (fun order => order.price = price) = [] := by
      apply filter_eq_nil_iff.mpr
      intro order member hit
      have inside := view_banded store order (Book.mem_restingOrders.mpr ⟨side, member⟩)
      rw [of_decide_eq_true hit, banded] at inside
      cases inside
    rw [none]
    rfl

theorem Valid.prices_eq (valid : store.Valid) (side : Side) :
    ((store.view.side side).map Order.price).dedup =
      (occupied side (store.sideRef side).bits).map priceOf := by
  apply valid.book.prices_eq
  · exact pairwise_map.mpr ((slots_better side).filter _)
  · intro price
    rw [view_side, (valid.sides side).orders_occupied, mem_map]
    constructor
    · intro ⟨slot, member, same⟩
      obtain ⟨sound, alive⟩ := valid.occupied_sound side slot member
      obtain ⟨front, maker, queued, shape, _, _, live⟩ := sound.shape alive
      refine ⟨⟨maker.id, side, priceOf slot, maker.quantity⟩, ?_, same⟩
      apply mem_flatMap.mpr
      refine ⟨slot, member, ?_⟩
      rw [shape, liveOrders_split _ _ live]
      exact mem_append_right _ mem_cons_self
    · intro ⟨order, member, priced⟩
      obtain ⟨slot, known, listed⟩ := mem_flatMap.mp member
      obtain ⟨flat, _, rfl⟩ := mem_map.mp listed
      exact ⟨slot, known, priced⟩

theorem Valid.collectLevels_eq (valid : store.Valid) (side : Side) :
    collectLevels (store.sideRef side) (side == .buy) = store.view.levelViews side := by
  rw [collectLevels, forEachOccupied_eq, visit_append (store.sideRef side).levels
    (fun slot level => [LevelView.mk (priceOf slot) (levelTotal level)]), nil_append,
    Book.levelViews, valid.prices_eq, map_map, ← map_eq_flatMap]
  apply map_congr_left
  intro slot member
  have inside := mem_slots.mp (mem_filter.mp member).1
  rw [Function.comp_apply, ← valid.quantityAt_eq, ContiguousStore.quantityAt,
    inBand_priceOf inside, slotOf_priceOf inside]
  rfl

/-- Every observer answers as the priority book does. -/
theorem Valid.observe_eq (valid : store.Valid) : store.observe = store.view.observe := by
  have count : store.orderCount = store.view.restingOrders.length := by
    have ids := congrArg List.length store.located_ids
    rw [length_map, length_map] at ids
    exact valid.indexed.size_eq.trans ids
  apply Observation.ext
  · exact congrArg₂ (· ++ ·) (valid.appendOrders_eq .buy) (valid.appendOrders_eq .sell)
  · exact count
  · exact funext valid.contains_eq
  · exact valid.bestSlot_eq .buy
  · exact valid.bestSlot_eq .sell
  · exact funext (fun side => funext (valid.quantityAt_eq side))
  · exact valid.collectLevels_eq .buy
  · exact valid.collectLevels_eq .sell
  · funext takerSide limit isMarket quantity
    exact valid.fillCount_eq takerSide limit isMarket quantity

end Observe

theorem lockstep : Lockstep.Refinement apply refuses Valid view observe where
  accepted := fun _ _ valid accepted => valid.apply accepted
  refused := fun _ _ _ refused => refused_unchanged refused
  observed := fun _ valid => valid.observe_eq

theorem view_empty : empty.view = Book.empty := by
  have none : ∀ side, sideOrders side emptySide.levels = [] := by
    intro side
    rw [sideOrders]
    apply flatMap_eq_nil_iff.mpr
    intro slot _
    rfl
  rw [view, empty, none, none]
  rfl

theorem outside_iff : inBand price = false ↔ price < minPrice ∨ maxPrice < price := by
  rw [inBand, decide_eq_false_iff_not, not_and_or, Int64.not_le, Int64.not_le]

/-- A contiguous and a baseline book after the same calls, less the refused ones. -/
def drive (ops : List BookOp) : ContiguousStore × BaselineStore :=
  Lockstep.drive apply refuses empty ops

theorem drive_append (ops : List BookOp) (op : BookOp) :
    drive (ops ++ [op]) = Lockstep.step apply refuses (drive ops) op :=
  Lockstep.drive_append apply refuses empty ops op

theorem drive_matches (ops : List BookOp) : Lockstep.Matches Valid view (drive ops) :=
  Lockstep.drive_matches lockstep valid_empty view_empty ops

/-- Contiguous storage refines the baseline book: after any calls the observers agree,
an accepted call answers and changes the book as the baseline book does, a call is
refused exactly when the baseline book would rest the order outside the band, and a
refused call changes nothing. -/
theorem drive_refines (ops : List BookOp) (op : BookOp) :
    let store := (drive ops).1
    let baseline := (drive ops).2
    store.observe = baseline.observe ∧
      (store.refuses op = false → (store.apply op).2 = (baseline.apply op).2 ∧
        (store.apply op).1.observe = (baseline.apply op).1.observe) ∧
      (store.refuses op = true ↔ ∃ order ∈ (baseline.apply op).1.restingOrders,
        order.id = op.id ∧ (order.price < minPrice ∨ maxPrice < order.price)) ∧
      (store.refuses op = true → store.apply op = (store, .traded [])) := by
  have pair := drive_matches ops
  refine ⟨pair.observe_eq lockstep, ?_, ?_, refused_unchanged⟩
  · intro accepted
    have applied := pair.accepted lockstep accepted
    exact ⟨applied.1, applied.2.observe_eq lockstep⟩
  · have after := (pair.baseline.apply op).view
    have exactly := Valid.refuses_iff pair.store op
    rw [pair.same, ← after] at exactly
    simp only [outside_iff] at exactly
    exact exactly

example : empty.refuses (.addLimit 7 .buy 1025 3 .gtc) = true := by decide

end Qsl.ContiguousStore
