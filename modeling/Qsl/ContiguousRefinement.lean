import Qsl.ContiguousMatching

namespace Qsl.ContiguousStore

open List

section Prices

variable (side : Side) (levels : Nat → FlatLevel)

/-- The orders filed under a price of the band. -/
def priceOrders (price : Price) : List Order :=
  liveOrders side price (levels (slotOf price)).orders

theorem sideOrders_prices :
    sideOrders side levels = ((slots side).map priceOf).flatMap (priceOrders side levels) := by
  rw [sideOrders, flatMap_map]
  apply flatMap_congr
  intro slot member
  rw [priceOrders, slotOf_priceOf (mem_slots.mp member)]

theorem prices_sorted : ((slots side).map priceOf).Pairwise (Better side) :=
  pairwise_map.mpr (slots_better side)

theorem mem_prices {price : Price} : price ∈ (slots side).map priceOf ↔ inBand price = true := by
  rw [mem_map]
  constructor
  · intro ⟨slot, member, same⟩
    rw [← same]
    exact inBand_priceOf (mem_slots.mp member)
  · intro banded
    exact ⟨slotOf price, mem_slots.mpr (slotOf_lt banded), priceOf_slotOf banded⟩

theorem prices_filed :
    Buckets.Filed Order.price ((slots side).map priceOf) (priceOrders side levels) := by
  intro price _ order member
  rw [priceOrders, liveOrders_eq] at member
  obtain ⟨flat, _, rfl⟩ := mem_map.mp member
  rfl

end Prices

/-- Resting a fresh, positive and uncrossed order in the band queues it in the book. -/
theorem Valid.rest {store : ContiguousStore} (valid : store.Valid) {id : OrderId} {side : Side}
    {price : Price} {quantity : Quantity} (banded : inBand price = true)
    (fresh : store.view.contains id = false) (positive : 0 < quantity)
    (apart : ∀ other ∈ store.view.side side.opposite, Better side.opposite price other.price) :
    (store.rest id side price quantity).1.Valid ∧
      (store.rest id side price quantity).1.view =
        store.view.rest ⟨id, side, price, quantity⟩ := by
  let level := (store.sideRef side).levels (slotOf price)
  let pushed : FlatLevel := ⟨level.orders ++ [⟨id, quantity⟩], level.head, level.alive + 1⟩
  let bits := if level.alive = 0 then Bitmap.set (store.sideRef side).bits (slotOf price)
    else (store.sideRef side).bits
  have inside := slotOf_lt banded
  have sideValid := valid.sides side
  have alive : FlatOrder.isLive ⟨id, quantity⟩ = true :=
    FlatOrder.isLive_iff.mpr ((quantity_pos _).mp positive)
  have rested : (store.rest id side price quantity).1 =
      { store.setSideRef side { (store.sideRef side).setLevel (slotOf price) pushed with
          bits := bits } with
        index := store.index.insert id ⟨side, price, level.orders.length⟩ } := by
    simp only [ContiguousStore.rest, banded, Bool.not_true, Bool.false_eq_true, if_false]
    rfl
  have orders : sideOrders side ((store.sideRef side).setLevel (slotOf price) pushed).levels =
      (store.view.side side).orderedInsert (fun a b => Better side a.price b.price)
        ⟨id, side, price, quantity⟩ := by
    rw [view_side, sideOrders_prices, sideOrders_prices]
    apply Buckets.flatMap_append (prices_sorted side) (prices_filed side _)
    · exact (mem_prices side).mpr banded
    · change priceOrders side _ price = priceOrders side _ price ++ _
      rw [priceOrders, priceOrders, setLevel_same]
      exact liveOrders_split side price alive level.orders []
    · intro other member differ
      have elsewhere : slotOf other ≠ slotOf price := by
        intro same
        apply differ
        rw [← priceOf_slotOf ((mem_prices side).mp member), same]
        exact priceOf_slotOf banded
      rw [priceOrders, priceOrders, setLevel_other _ _ elsewhere]
  have after : store.view.setSide side
      (sideOrders side ((store.sideRef side).setLevel (slotOf price) pushed).levels) =
        store.view.rest ⟨id, side, price, quantity⟩ := by
    rw [orders]
    rfl
  rw [rested]
  constructor
  · apply valid.replace side
    · apply sideValid.replace ((sideValid.tidy _ inside).push alive)
      · intro _
        simp only [bits]
        split
        · simp [Bitmap.test_set]
        · rename_i occupied
          exact ((sideValid.marked _ inside).trans (iff_of_true occupied (Nat.succ_ne_zero _)))
      · intro other differ
        simp only [bits]
        split
        · simp [Bitmap.test_set, differ]
        · rfl
    · apply index_frame (store.sideRef side) inside (valid.indexed_side side)
      intro others exact
      rw [priceOf_slotOf banded] at exact ⊢
      have joined := locatedFrom_split side price alive 0 level.orders []
      rw [Nat.zero_add] at joined
      have listed : (store.index.insert id ⟨side, price, level.orders.length⟩).Indexes
          ((id, ⟨side, price, level.orders.length⟩) ::
            (locatedLevel side price level ++ others)) := by
        apply exact.insert_fresh
        intro member
        have known := exact.contains_iff.mpr member
        have absent := valid.contains_eq id
        rw [contains, known, fresh] at absent
        cases absent
      apply listed.perm
      rw [locatedLevel, locatedLevel, joined, append_assoc]
      exact perm_middle.symm
    · change (store.view.setSide side
        (sideOrders side ((store.sideRef side).setLevel (slotOf price) pushed).levels)).WellFormed
      rw [after]
      exact valid.book.rest fresh positive apart
  · rw [view_setSideRef]
    exact after

section Place

variable {store : ContiguousStore} {id : OrderId} {loc : Locator}

theorem mem_locatedSide {side : Side} {levels : Nat → FlatLevel}
    (member : (id, loc) ∈ locatedSide side levels) :
    loc.side = side ∧ inBand loc.price = true ∧
      ∃ front flat back, (levels (slotOf loc.price)).orders = front ++ flat :: back ∧
        front.length = loc.pos ∧ flat.isLive = true ∧ flat.id = id := by
  rw [locatedSide] at member
  obtain ⟨slot, known, inside⟩ := mem_flatMap.mp member
  obtain ⟨⟨flat, pos⟩, placed, same⟩ := mem_map.mp inside
  obtain ⟨alive, front, back, shape, place⟩ := LiveQueue.split_of_placed placed
  cases same
  rw [Nat.zero_add] at place
  refine ⟨rfl, inBand_priceOf (mem_slots.mp known), front, flat, back, ?_, place, alive, rfl⟩
  change (levels (slotOf (priceOf slot))).orders = _
  rw [slotOf_priceOf (mem_slots.mp known)]
  exact shape

/-- An index entry leads to the live order it names. -/
theorem mem_located (member : (id, loc) ∈ store.located) :
    inBand loc.price = true ∧
      ∃ front flat back, ((store.sideRef loc.side).levels (slotOf loc.price)).orders =
        front ++ flat :: back ∧ front.length = loc.pos ∧ flat.isLive = true ∧ flat.id = id := by
  rcases mem_append.mp member with bid | ask
  · obtain ⟨sided, banded, found⟩ := mem_locatedSide bid
    rw [sided]
    exact ⟨banded, found⟩
  · obtain ⟨sided, banded, found⟩ := mem_locatedSide ask
    rw [sided]
    exact ⟨banded, found⟩

variable {front back : List FlatOrder} {flat : FlatOrder}

/-- Where the order stands in its side of the book, whatever else happens to its level. -/
theorem side_place (banded : inBand loc.price = true)
    (shape : ((store.sideRef loc.side).levels (slotOf loc.price)).orders = front ++ flat :: back)
    (alive : flat.isLive = true) :
    ∃ before after,
      store.view.side loc.side =
        before ++ ⟨flat.id, loc.side, loc.price, flat.quantity⟩ :: after ∧
      (∀ level tombstone, tombstone.isLive = false →
        level.live = (front ++ tombstone :: back).filter FlatOrder.isLive →
        sideOrders loc.side ((store.sideRef loc.side).setLevel (slotOf loc.price) level).levels =
          before ++ after) ∧
      (∀ level revised, revised.isLive = true → level.orders = front ++ revised :: back →
        sideOrders loc.side ((store.sideRef loc.side).setLevel (slotOf loc.price) level).levels =
          before ++ ⟨revised.id, loc.side, loc.price, revised.quantity⟩ :: after) := by
  obtain ⟨first, last, framed⟩ :=
    orders_frame (store.sideRef loc.side) loc.side (slotOf_lt banded)
  rw [priceOf_slotOf banded] at framed
  refine ⟨first ++ liveOrders loc.side loc.price front,
    liveOrders loc.side loc.price back ++ last, ?_, ?_, ?_⟩
  · have old := framed ((store.sideRef loc.side).levels (slotOf loc.price))
    rw [setLevel_self] at old
    rw [view_side, old, shape, liveOrders_split _ _ alive]
    simp only [append_assoc, cons_append]
  · intro level tombstone dead live
    have same : liveOrders loc.side loc.price level.orders =
        liveOrders loc.side loc.price (front ++ tombstone :: back) := by
      rw [liveOrders_eq, liveOrders_eq, ← live]
      rfl
    rw [framed, same, liveOrders_kill _ _ dead]
    simp only [append_assoc]
  · intro level revised kept orders
    rw [framed, orders, liveOrders_split _ _ kept]
    simp only [append_assoc, cons_append]

/-- Erasing the order's id takes its entry out of the level's. -/
theorem index_kill {index : Index} {others : List (OrderId × Locator)} {side : Side}
    {price : Price} (alive : flat.isLive = true) {tombstone : FlatOrder}
    (dead : tombstone.isLive = false)
    (exact : index.Indexes (locatedFrom side price 0 (front ++ flat :: back) ++ others)) :
    (index.erase flat.id).Indexes
      (locatedFrom side price 0 (front ++ tombstone :: back) ++ others) := by
  rw [locatedFrom_split _ _ alive, append_assoc, cons_append] at exact
  rw [locatedFrom_kill _ _ dead, append_assoc]
  exact (exact.perm perm_middle).erase_head

end Place

section Remove

variable {store : ContiguousStore} {id : OrderId} {loc : Locator}

/-- One level written back after the order at `loc` left it. -/
theorem Valid.written (valid : store.Valid) {front back : List FlatOrder} {flat : FlatOrder}
    (banded : inBand loc.price = true)
    (shape : ((store.sideRef loc.side).levels (slotOf loc.price)).orders = front ++ flat :: back)
    (alive : flat.isLive = true) {bookSide : BookSide} (level : FlatLevel) {index : Index}
    (levels : bookSide.levels =
      ((store.sideRef loc.side).setLevel (slotOf loc.price) level).levels)
    (sound : SideValid bookSide)
    (live : level.live = (front ++ ⟨flat.id, 0⟩ :: back).filter FlatOrder.isLive)
    (listed : ∀ others, (store.index.erase flat.id).Indexes
        (locatedFrom loc.side loc.price 0 (front ++ ⟨flat.id, 0⟩ :: back) ++ others) →
      index.Indexes (locatedLevel loc.side loc.price level ++ others)) :
    Valid { store.setSideRef loc.side bookSide with index := index } ∧
      view { store.setSideRef loc.side bookSide with index := index } =
        store.view.remove flat.id := by
  have tombstone : FlatOrder.isLive ⟨flat.id, 0⟩ = false := rfl
  obtain ⟨before, after, standing, removed, _⟩ := side_place banded shape alive
  have orders : sideOrders loc.side bookSide.levels = before ++ after := by
    rw [levels]
    exact removed level _ tombstone live
  have book : store.view.setSide loc.side (sideOrders loc.side bookSide.levels) =
      store.view.remove flat.id := by
    rw [orders]
    exact (valid.book.remove_place standing).symm
  constructor
  · apply valid.replace loc.side sound
    · rw [levels]
      apply index_frame (store.sideRef loc.side) (slotOf_lt banded) (valid.indexed_side loc.side)
      intro others exact
      rw [priceOf_slotOf banded] at exact ⊢
      rw [locatedLevel, shape] at exact
      exact listed others (index_kill alive tombstone exact)
    · rw [book]
      exact valid.book.remove flat.id
  · rw [view_setSideRef]
    exact book

section

variable (valid : store.Valid) (resting : (id, loc) ∈ store.located)

include valid resting

/-- Erasing through the index removes the order from the book: its level is cleared,
or its cursor moved on and the vector compacted when due. -/
theorem Valid.removeResting :
    let removed := ContiguousStore.removeResting { store with index := store.index.erase id } loc
    removed.Valid ∧ removed.view = store.view.remove id := by
  obtain ⟨banded, front, flat, back, shape, place, alive, rfl⟩ := mem_located resting
  let level := (store.sideRef loc.side).levels (slotOf loc.price)
  have inside := slotOf_lt banded
  have sideValid := valid.sides loc.side
  have sound : level.Sound := (sideValid.tidy _ inside).toSound
  have occupied : level.alive ≠ 0 := sound.occupied shape alive
  have tombstone : FlatOrder.isLive ⟨flat.id, 0⟩ = false := rfl
  have killed : level.setQuantity loc.pos 0 =
      ⟨front ++ ⟨flat.id, 0⟩ :: back, level.head, level.alive⟩ := by
    have vector : level.orders.modify loc.pos (fun order => { order with quantity := 0 }) =
        front ++ ⟨flat.id, 0⟩ :: back := by
      rw [← place, shape, LiveQueue.modify_middle]
    rw [FlatLevel.setQuantity, vector]
  have counted := sound.kill_counted shape alive tombstone
  have sameSide : ContiguousStore.sideRef { store with index := store.index.erase flat.id } loc.side =
      store.sideRef loc.side := by
    cases loc.side <;> rfl
  have rewritten : ∀ bookSide index,
      { ContiguousStore.setSideRef { store with index := store.index.erase flat.id }
        loc.side bookSide with index := index } =
          { store.setSideRef loc.side bookSide with index := index } := by
    intro bookSide index
    cases loc.side <;> rfl
  rw [ContiguousStore.removeResting]
  simp only [sameSide]
  rw [killed]
  by_cases last : level.alive - 1 = 0
  · rw [if_pos last]
    have cleared : ContiguousStore.setSideRef { store with index := store.index.erase flat.id }
        loc.side (clearLevel ((store.sideRef loc.side).setLevel (slotOf loc.price)
          ⟨front ++ ⟨flat.id, 0⟩ :: back, level.head, level.alive - 1⟩) (slotOf loc.price)) =
        { store.setSideRef loc.side (clearLevel ((store.sideRef loc.side).setLevel (slotOf loc.price)
          ⟨front ++ ⟨flat.id, 0⟩ :: back, level.head, level.alive - 1⟩) (slotOf loc.price)) with
          index := store.index.erase flat.id } := by
      cases loc.side <;> rfl
    have dead : (front ++ ⟨flat.id, 0⟩ :: back).filter FlatOrder.isLive = [] := by
      rw [last] at counted
      exact eq_nil_of_length_eq_zero counted.symm
    rw [cleared]
    apply valid.written banded shape alive ⟨[], 0, 0⟩
    · rw [clearLevel_setLevel]
    · exact sideValid.clearLevel _
    · exact dead.symm
    · intro others exact
      rw [locatedFrom_dead _ _ dead] at exact
      exact exact
  · rw [if_neg last]
    let moved : FlatLevel := if loc.pos = level.head
      then advanceHead ⟨front ++ ⟨flat.id, 0⟩ :: back, level.head, level.alive - 1⟩
      else ⟨front ++ ⟨flat.id, 0⟩ :: back, level.head, level.alive - 1⟩
    have movedOrders : moved.orders = front ++ ⟨flat.id, 0⟩ :: back := by
      simp only [moved]
      split <;> rfl
    have movedAlive : moved.alive ≠ 0 := by
      simp only [moved]
      split <;> exact last
    have movedSound : moved.Sound := by
      simp only [moved]
      split
      · exact sound.kill_front shape alive tombstone
      · rename_i differ
        exact sound.kill_later shape alive tombstone (place ▸ differ) last
    have movedListed : ∀ others, (store.index.erase flat.id).Indexes
        (locatedFrom loc.side loc.price 0 (front ++ ⟨flat.id, 0⟩ :: back) ++ others) →
        (store.index.erase flat.id).Indexes (locatedLevel loc.side loc.price moved ++ others) := by
      intro others exact
      rw [locatedLevel, movedOrders]
      exact exact
    obtain ⟨rest, singled⟩ := index_level inside (valid.indexed_side loc.side)
    rw [priceOf_slotOf banded, locatedLevel, shape] at singled
    obtain ⟨sound', live, kept, _⟩ := maybeCompact_sound loc.side loc.price movedSound
      (movedListed rest (index_kill alive tombstone singled))
    have result := valid.written banded shape alive
      (maybeCompact (store.index.erase flat.id) moved).1 rfl
      (sideValid.keep sound' occupied (kept ▸ movedAlive))
      (by rw [live, FlatLevel.live, movedOrders])
      (fun others exact => (maybeCompact_sound loc.side loc.price movedSound
        (movedListed others exact)).2.2.2)
    rw [← rewritten] at result
    exact result

/-- The order an index entry leads to. -/
theorem Valid.find?_order :
    ∃ flat, store.orderAt loc = some flat ∧
      store.view.find? id = some ⟨id, loc.side, loc.price, flat.quantity⟩ := by
  obtain ⟨banded, front, flat, back, shape, place, alive, rfl⟩ := mem_located resting
  refine ⟨flat, ?_, ?_⟩
  · rw [orderAt, shape, ← place, getElem?_append_right (Nat.le_refl _), Nat.sub_self]
    rfl
  · obtain ⟨before, after, standing, _⟩ := side_place banded shape alive
    apply (Book.find?_eq_some valid.book.unique).mpr
    refine ⟨Book.mem_restingOrders.mpr ⟨loc.side, ?_⟩, rfl⟩
    rw [standing]
    exact mem_append_right _ mem_cons_self

/-- Writing a quantity through the index changes it in place in the book. -/
theorem Valid.setQuantity {quantity : Quantity} (positive : 0 < quantity) :
    let bookSide := store.sideRef loc.side
    let written := store.setSideRef loc.side (bookSide.setLevel (slotOf loc.price)
      ((bookSide.levels (slotOf loc.price)).setQuantity loc.pos quantity))
    written.Valid ∧ written.view = store.view.setQuantity id quantity := by
  obtain ⟨banded, front, flat, back, shape, place, alive, rfl⟩ := mem_located resting
  let level := (store.sideRef loc.side).levels (slotOf loc.price)
  let revised : FlatOrder := ⟨flat.id, quantity⟩
  have inside := slotOf_lt banded
  have sideValid := valid.sides loc.side
  have sound : level.Sound := (sideValid.tidy _ inside).toSound
  have kept : revised.isLive = true := FlatOrder.isLive_iff.mpr ((quantity_pos _).mp positive)
  have occupied : level.alive ≠ 0 := sound.occupied shape alive
  have changed : level.setQuantity loc.pos quantity =
      ⟨front ++ revised :: back, level.head, level.alive⟩ := by
    have vector : level.orders.modify loc.pos (fun order => { order with quantity := quantity }) =
        front ++ revised :: back := by
      rw [← place, shape, LiveQueue.modify_middle]
    rw [FlatLevel.setQuantity, vector]
  obtain ⟨before, after, standing, _, written⟩ := side_place banded shape alive
  have orders := written ⟨front ++ revised :: back, level.head, level.alive⟩ revised kept rfl
  have book := valid.book.setQuantity_place standing quantity
  have sameIndex : ∀ bookSide, store.setSideRef loc.side bookSide =
      { store.setSideRef loc.side bookSide with index := store.index } := by
    intro bookSide
    cases loc.side <;> rfl
  simp only
  rw [changed, sameIndex]
  constructor
  · apply valid.replace loc.side (sideValid.keep (sound.revise shape alive kept) occupied occupied)
    · apply index_frame (store.sideRef loc.side) inside (valid.indexed_side loc.side)
      intro others exact
      rw [locatedLevel, shape, locatedFrom_split _ _ alive] at exact
      rw [locatedLevel, locatedFrom_split _ _ kept]
      exact exact
    · rw [orders, ← book]
      exact valid.book.setQuantity _ positive
  · rw [view_setSideRef, orders, book]

end

end Remove

end Qsl.ContiguousStore
