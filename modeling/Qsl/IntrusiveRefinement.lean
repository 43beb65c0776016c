import Qsl.IntrusiveInvariant

namespace Qsl.IntrusiveStore

open List OrderedMap Function

section Level

variable {capacity : Nat} {store : IntrusiveStore} {cells : Side → Price → List Cell}

/-- The cells of the level at a price, none when there is no such level. -/
def levelCells {lt : Price → Price → Prop} (levels : OrderedMap Price Level lt)
    (cells : Price → List Cell) (price : Price) : List Cell :=
  levels.bucket (fun price _ => cells price) price

/-- Every cell that is not of the given level. -/
def otherCells (store : IntrusiveStore) (cells : Side → Price → List Cell) (side : Side)
    (price : Price) : List Cell :=
  sideCells ((store.levels side).erase price) (cells side) ++
    sideCells (store.levels side.opposite) (cells side.opposite)

theorem Placed.accounts_level (placed : Placed capacity store cells) (side : Side)
    (price : Price) :
    Accounts capacity store.pools
      (levelCells (store.levels side) (cells side) price ++ store.otherCells cells side price) := by
  apply (placed.accounts_side side).perm
  rw [otherCells, ← append_assoc]
  exact (collect_perm _ _ price).append_right _

theorem Placed.holds_level (placed : Placed capacity store cells) (side : Side) (price : Price) :
    store.pools.Holds (((store.levels side).find? price).getD .empty)
        (levelCells (store.levels side) (cells side) price) ∧
      ∀ cell ∈ levelCells (store.levels side) (cells side) price,
        cell.order.side = side ∧ cell.order.price = price := by
  rw [levelCells, OrderedMap.bucket]
  cases found : (store.levels side).find? price with
  | none =>
    refine ⟨LinkedQueue.holds_empty _, ?_⟩
    intro cell member
    cases member
  | some level =>
    have shape := placed.levels side _ (OrderedMap.find?_eq_some.mp found)
    exact ⟨shape.holds, shape.filed⟩

/-- A side whose level at one price was rewritten. `kept` are the level's cells
afterwards; the pools left the nodes of all other cells alone. -/
theorem Placed.rewrite (placed : Placed capacity store cells) {side : Side} {price : Price}
    (levels : OrderedMap Price Level (Better side)) (pools : Pools) (kept : List Cell)
    (entries : ∀ entry ∈ levels.entries,
      (entry.1 = price ∧ LevelShape side pools entry kept) ∨
        (entry ∈ (store.levels side).entries ∧ entry.1 ≠ price))
    (collected : sideCells (levels.erase price) (cells side) =
      sideCells ((store.levels side).erase price) (cells side))
    (vacant : levels.find? price = none → kept = [])
    (frame : ∀ cell ∈ store.otherCells cells side price,
      pools.nodes.slots cell.node = store.pools.nodes.slots cell.node)
    (accounts : Accounts capacity pools (kept ++ store.otherCells cells side price)) :
    Placed capacity { store.setLevels side levels with pools := pools }
        (Function.update cells side (Function.update (cells side) price kept)) ∧
      view { store.setLevels side levels with pools := pools } =
        store.view.setSide side ((sideCells levels
          (Function.update (cells side) price kept)).map Cell.order) := by
  apply placed.replace side
  · intro entry member
    rcases entries entry member with ⟨here, shape⟩ | ⟨old, apart⟩
    · rw [here, update_self]
      exact shape
    · rw [update_of_ne apart]
      apply (placed.levels side entry old).congr
      intro cell inside
      apply frame
      apply mem_append_left
      exact mem_sideCells.mpr ⟨entry, mem_filter.mpr ⟨old, by simpa using apart⟩, inside⟩
  · intro cell member
    exact frame cell (mem_append_right _ member)
  · apply accounts.perm
    have bucket : levelCells levels (Function.update (cells side) price kept) price = kept := by
      rw [levelCells, OrderedMap.bucket]
      cases found : levels.find? price with
      | none => exact (vacant found).symm
      | some level => exact update_self _ _ _
    have others : sideCells (levels.erase price) (Function.update (cells side) price kept) =
        sideCells ((store.levels side).erase price) (cells side) := by
      rw [← collected, sideCells, sideCells, OrderedMap.collect, OrderedMap.collect]
      apply flatMap_congr
      intro entry member
      have apart := (mem_filter.mp member).2
      exact update_of_ne (by simpa using apart) _ _
    have whole := collect_perm levels
      (fun other _ => Function.update (cells side) price kept other) price
    change (sideCells levels _).Perm (levelCells levels _ price ++ sideCells _ _) at whole
    rw [bucket, others] at whole
    rw [otherCells, ← append_assoc]
    exact (whole.append_right _).symm

end Level

section Rest

variable {capacity : Nat} {store : IntrusiveStore} {id : OrderId} {side : Side} {price : Price}
variable {quantity : Quantity}

/-- With room in the pools, resting a fresh, positive and uncrossed order succeeds and
queues it in the book. -/
theorem Valid.rest (valid : Valid capacity store) (room : store.orderCount < capacity)
    (fresh : store.view.contains id = false) (positive : 0 < quantity)
    (apart : ∀ other ∈ store.view.side side.opposite, Better side.opposite price other.price) :
    (store.rest id side price quantity).2 = true ∧
      Valid capacity (store.rest id side price quantity).1 ∧
      (store.rest id side price quantity).1.view =
        store.view.rest ⟨id, side, price, quantity⟩ := by
  obtain ⟨cells, placed⟩ := valid.placed
  let order : Order := ⟨id, side, price, quantity⟩
  let level := ((store.levels side).find? price).getD .empty
  let held := levelCells (store.levels side) (cells side) price
  obtain ⟨holds, filed⟩ := placed.holds_level side price
  have accounts := placed.accounts_level side price
  have absent : store.pools.index.contains id = false := (placed.contains_eq id).trans fresh
  have unused : order.id ∉ (held ++ store.otherCells cells side price).map
      (fun cell => cell.order.id) := by
    intro listed
    have known : store.pools.index.contains id = true := by
      apply accounts.index.contains_iff.mpr
      rw [map_map]
      exact listed
    rw [absent] at known
    cases known
  have count : (held ++ store.otherCells cells side price).length < capacity := by
    have size := accounts.index.size_eq
    rw [length_map] at size
    rw [← size]
    exact room
  obtain ⟨slot, node, orders, nodes, ordersTaken, nodesTaken, queued, accounted, frame⟩ :=
    Accounts.attach holds accounts unused count
  let cell : Cell := ⟨node, slot, order⟩
  let attached := Pools.attach ⟨orders, nodes, store.pools.index⟩ level order node
  have rested : store.rest id side price quantity =
      ({ store.setLevels side ((store.levels side).insert price attached.2) with
        pools := attached.1 }, true) := by
    rw [IntrusiveStore.rest, ordersTaken]
    simp only [nodesTaken]
    rw [appendResting]
    simp only [Pools.appendNode, absent, Bool.false_eq_true, if_false]
    cases side <;> rfl
  obtain ⟨after, viewed⟩ := placed.rewrite ((store.levels side).insert price attached.2)
    attached.1 (held ++ [cell])
    (by
      intro entry member
      rcases mem_insert_entries member with rfl | old
      · refine Or.inl ⟨rfl, queued, append_ne_nil_of_right_ne_nil _ (cons_ne_nil _ _), ?_⟩
        intro other inside
        rcases mem_append.mp inside with earlier | last
        · exact filed other earlier
        · rw [mem_singleton.mp last]
          exact ⟨rfl, rfl⟩
      · exact Or.inr old)
    (by rw [erase_insert])
    (by
      intro missing
      rw [find?_insert, if_pos rfl] at missing
      cases missing)
    frame accounted
  have inserted : (sideCells ((store.levels side).insert price attached.2)
      (Function.update (cells side) price (held ++ [cell]))).map Cell.order =
        (store.view.side side).orderedInsert (fun a b => Better side a.price b.price) order := by
    rw [placed.view_side, sideCells, sideCells, OrderedMap.collect, OrderedMap.collect,
      map_flatMap, map_flatMap]
    apply collect_insert_append Order.price
      (fun other _ => (cells side other).map Cell.order)
      (fun other _ => (Function.update (cells side) price (held ++ [cell]) other).map Cell.order)
      order
    · intro entry member other inside
      obtain ⟨source, present, rfl⟩ := mem_map.mp inside
      exact ((placed.levels side entry member).filed source present).2
    · have here : (store.levels side).bucket (fun other _ => (cells side other).map Cell.order)
          price = held.map Cell.order := by
        simp only [held, levelCells, OrderedMap.bucket]
        cases (store.levels side).find? price <;> rfl
      change (Function.update (cells side) price (held ++ [cell]) price).map Cell.order = _
      rw [here, update_self, map_append]
      rfl
    · intro entry _ differ
      exact congrArg _ (update_of_ne differ _ _)
  have final : view { store.setLevels side ((store.levels side).insert price attached.2) with
      pools := attached.1 } = store.view.rest order := viewed.trans (congrArg _ inserted)
  rw [rested]
  refine ⟨rfl, ⟨⟨_, after⟩, ?_⟩, final⟩
  rw [final]
  exact valid.book.rest fresh positive apart

end Rest

section Place

variable {capacity : Nat} {store : IntrusiveStore} {cells : Side → Price → List Cell}
variable {id : OrderId} {loc : Locator}

/-- Where the index leads: the order's cell within the list of its level. -/
structure Located (store : IntrusiveStore) (cells : Side → Price → List Cell) (loc : Locator)
    (cell : Cell) (level : Level) (better worse : List (Price × Level)) (front back : List Cell) :
    Prop where
  entries : (store.levels loc.side).entries = better ++ (loc.price, level) :: worse
  cells : cells loc.side loc.price = front ++ cell :: back
  node : cell.node = loc.node
  side : cell.order.side = loc.side
  price : cell.order.price = loc.price

theorem Placed.locate (placed : Placed capacity store cells)
    (found : store.pools.index.find? id = some loc) :
    ∃ cell level better worse front back,
      Located store cells loc cell level better worse front back ∧ cell.order.id = id := by
  obtain ⟨cell, member, same⟩ := mem_map.mp (placed.accounts.index.find?.mp found)
  have listed : ∃ side, cell ∈ sideCells (store.levels side) (cells side) :=
    (mem_append.mp member).elim (fun bid => ⟨.buy, bid⟩) (fun ask => ⟨.sell, ask⟩)
  obtain ⟨side, inside⟩ := listed
  obtain ⟨⟨price, level⟩, known, here⟩ := mem_sideCells.mp inside
  obtain ⟨sided, priced⟩ := (placed.levels side _ known).filed cell here
  obtain ⟨better, worse, entries⟩ := append_of_mem known
  obtain ⟨front, back, queue⟩ := append_of_mem here
  have ids : cell.order.id = id := congrArg Prod.fst same
  have place : (⟨cell.order.side, cell.order.price, cell.node⟩ : Locator) = loc :=
    congrArg Prod.snd same
  subst place
  refine ⟨cell, level, better, worse, front, back, ⟨?_, ?_, rfl, rfl, rfl⟩, ids⟩
  · rw [sided, priced]
    exact entries
  · rw [sided, priced]
    exact queue

variable {cell : Cell} {level : Level} {better worse : List (Price × Level)}
variable {front back : List Cell}

section

variable (located : Located store cells loc cell level better worse front back)

include located

theorem Located.find? : (store.levels loc.side).find? loc.price = some level := by
  apply OrderedMap.find?_eq_some.mpr
  rw [located.entries]
  exact mem_append_right _ mem_cons_self

theorem Located.levelCells :
    levelCells (store.levels loc.side) (cells loc.side) loc.price = front ++ cell :: back := by
  rw [IntrusiveStore.levelCells, OrderedMap.bucket, located.find?]
  exact located.cells

/-- The levels around the order's level are at other prices. -/
theorem Located.elsewhere : ∀ entry ∈ better ++ worse, entry.1 ≠ loc.price := by
  have distinct := (store.levels loc.side).keys_nodup
  rw [OrderedMap.keys, located.entries, map_append, map_cons,
    nodup_append] at distinct
  intro entry member same
  rcases mem_append.mp member with before | behind
  · exact distinct.2.2 _ (mem_map_of_mem before) _ mem_cons_self same
  · exact (nodup_cons.mp distinct.2.1).1 (mem_map.mpr ⟨entry, behind, same⟩)

/-- Rewriting the level's cells leaves those of the levels around it. -/
theorem Located.around (kept : List Cell) {entries : List (Price × Level)}
    (inside : entries ⊆ better ++ worse) :
    entries.flatMap (fun entry => Function.update (cells loc.side) loc.price kept entry.1) =
      entries.flatMap (fun entry => cells loc.side entry.1) := by
  apply flatMap_congr
  intro entry member
  exact update_of_ne (located.elsewhere entry (inside member)) _ _

theorem Located.view_side (placed : Placed capacity store cells) :
    store.view.side loc.side =
      (better.flatMap (fun entry => cells loc.side entry.1) ++ front).map Cell.order ++
        cell.order :: (back ++ worse.flatMap (fun entry => cells loc.side entry.1)).map
          Cell.order := by
  rw [placed.view_side, sideCells, OrderedMap.collect, located.entries, List.flatMap_append,
    flatMap_cons, located.cells]
  simp only [map_append, map_cons, append_assoc, cons_append]

theorem Located.find?_order (placed : Placed capacity store cells) (book : store.view.WellFormed) :
    store.view.find? cell.order.id = some cell.order := by
  apply (Book.find?_eq_some book.unique).mpr
  refine ⟨Book.mem_restingOrders.mpr ⟨loc.side, ?_⟩, rfl⟩
  rw [located.view_side placed]
  exact mem_append_right _ mem_cons_self

theorem Located.orderAt (placed : Placed capacity store cells) :
    store.pools.orderAt loc.node = some cell.order := by
  have holds := (placed.holds_level loc.side loc.price).1
  have accounts := placed.accounts_level loc.side loc.price
  rw [located.levelCells] at holds accounts
  rw [← located.node]
  exact holds.orderAt accounts

end

end Place

section Erase

variable {capacity : Nat} {store : IntrusiveStore} {cells : Side → Price → List Cell}
variable {id : OrderId} {loc : Locator}

theorem erase_eraseLevelIfEmpty {lt : Price → Price → Prop} [DecidableRel lt]
    [IsStrictTotalOrder Price lt] (levels : OrderedMap Price Level lt) (price : Price)
    (level : Level) :
    (eraseLevelIfEmpty (levels.insert price level) price level).erase price =
      levels.erase price := by
  rw [eraseLevelIfEmpty]
  split
  · rw [erase_insert]
    apply eq_of_find?_eq
    intro other
    rw [find?_erase, find?_erase]
    split <;> rfl
  · exact erase_insert _ _ _

/-- Erasing through the index removes the order from the book and frees its slots. -/
theorem Valid.eraseIndexedOrder (valid : Valid capacity store)
    (found : store.pools.index.find? id = some loc) :
    Valid capacity (store.eraseIndexedOrder id loc) ∧
      (store.eraseIndexedOrder id loc).view = store.view.remove id := by
  obtain ⟨cells, placed⟩ := valid.placed
  obtain ⟨cell, level, better, worse, front, back, located, rfl⟩ := placed.locate found
  obtain ⟨holds, filed⟩ := placed.holds_level loc.side loc.price
  have accounts := placed.accounts_level loc.side loc.price
  rw [located.find?] at holds
  rw [located.levelCells] at holds accounts filed
  let detached := store.pools.detach cell.order.id level cell.node
  obtain ⟨left, leftAccounts, frame⟩ := Accounts.detach holds accounts
  let levels := eraseLevelIfEmpty ((store.levels loc.side).insert loc.price detached.2) loc.price
    detached.2
  have size : detached.2.size = (front ++ back).length := by
    have sized := LinkedQueue.Holds.size left
    rwa [length_map] at sized
  have reshaped : store.eraseIndexedOrder cell.order.id loc =
      { store.setLevels loc.side levels with pools := detached.1 } := by
    have level_eq := located.find?
    have node := located.node
    rcases store with ⟨pools, bids, asks⟩
    rcases loc with ⟨side, price, node⟩
    subst node
    cases side
    · simp only [IntrusiveStore.levels] at level_eq
      simp only [IntrusiveStore.eraseIndexedOrder, eraseRestingOrder, IntrusiveStore.levels,
        level_eq]
      rfl
    · simp only [IntrusiveStore.levels] at level_eq
      simp only [IntrusiveStore.eraseIndexedOrder, eraseRestingOrder, IntrusiveStore.levels,
        level_eq]
      rfl
  obtain ⟨after, viewed⟩ := placed.rewrite levels detached.1 (front ++ back)
    (by
      intro entry member
      rcases mem_insert_erase_if member with ⟨rfl, occupied⟩ | old
      · refine Or.inl ⟨rfl, left, ?_, ?_⟩
        · intro empty
          rw [size, empty] at occupied
          exact occupied rfl
        · intro other inside
          apply filed
          rcases mem_append.mp inside with before | behind
          · exact mem_append_left _ before
          · exact mem_append_right _ (mem_cons_of_mem _ behind)
      · exact Or.inr old)
    (by rw [erase_eraseLevelIfEmpty])
    (by
      intro missing
      simp only [levels, eraseLevelIfEmpty] at missing
      split at missing
      · rename_i none
        exact eq_nil_of_length_eq_zero (size.symm.trans none)
      · rw [find?_insert, if_pos rfl] at missing
        cases missing)
    frame leftAccounts
  have shape := insert_middle located.entries detached.2
  have collected : sideCells levels (Function.update (cells loc.side) loc.price (front ++ back)) =
      (better.flatMap (fun entry => cells loc.side entry.1) ++ front) ++
        (back ++ worse.flatMap (fun entry => cells loc.side entry.1)) := by
    have before := located.around (front ++ back) (subset_append_left better worse)
    have behind := located.around (front ++ back) (subset_append_right better worse)
    rw [sideCells, OrderedMap.collect]
    simp only [levels, eraseLevelIfEmpty]
    split
    · rename_i none
      have empty := append_eq_nil_iff.mp
        (eq_nil_of_length_eq_zero (size.symm.trans none))
      rw [erase_middle shape, List.flatMap_append, before, behind, empty.1, empty.2,
        append_nil, nil_append]
    · rw [shape, List.flatMap_append, flatMap_cons, update_self, before, behind]
      simp only [append_assoc]
  have removed := valid.book.remove_place (located.view_side placed)
  have final : (store.eraseIndexedOrder cell.order.id loc).view =
      store.view.remove cell.order.id := by
    rw [reshaped, removed, ← map_append, ← collected]
    exact viewed
  refine ⟨⟨?_, ?_⟩, final⟩
  · rw [reshaped]
    exact ⟨_, after⟩
  · rw [final]
    exact valid.book.remove _

/-- Writing a quantity through the index changes it in place in the book. -/
theorem Valid.setQuantity (valid : Valid capacity store)
    (found : store.pools.index.find? id = some loc) {quantity : Quantity}
    (positive : 0 < quantity) :
    Valid capacity { store with pools := store.pools.setQuantity loc.node quantity } ∧
      view { store with pools := store.pools.setQuantity loc.node quantity } =
        store.view.setQuantity id quantity := by
  obtain ⟨cells, placed⟩ := valid.placed
  obtain ⟨cell, level, better, worse, front, back, located, rfl⟩ := placed.locate found
  obtain ⟨holds, filed⟩ := placed.holds_level loc.side loc.price
  have accounts := placed.accounts_level loc.side loc.price
  rw [located.find?] at holds
  rw [located.levelCells] at holds accounts filed
  obtain ⟨left, leftAccounts, nodes⟩ := Accounts.setQuantity holds accounts quantity
  let pools := store.pools.setQuantity cell.node quantity
  let kept := front ++ cell.setQuantity quantity :: back
  have reshaped : { store with pools := store.pools.setQuantity loc.node quantity } =
      { store.setLevels loc.side (store.levels loc.side) with pools := pools } := by
    rw [← located.node]
    cases loc.side <;> rfl
  obtain ⟨after, viewed⟩ := placed.rewrite (store.levels loc.side) pools kept
    (by
      intro entry member
      by_cases here : entry.1 = loc.price
      · have same : entry.2 = level := by
          have known := OrderedMap.find?_eq_some.mpr member
          rw [here, located.find?] at known
          exact (Option.some.inj known).symm
        refine Or.inl ⟨here, ?_, append_ne_nil_of_right_ne_nil _ (cons_ne_nil _ _), ?_⟩
        · rw [same]
          exact left
        · rw [here]
          intro other inside
          rcases mem_append.mp inside with before | behind
          · exact filed other (mem_append_left _ before)
          · rcases mem_cons.mp behind with rfl | later
            · exact ⟨located.side, located.price⟩
            · exact filed other (mem_append_right _ (mem_cons_of_mem _ later))
      · exact Or.inr ⟨member, here⟩)
    rfl
    (by
      intro missing
      rw [located.find?] at missing
      cases missing)
    (by
      intro other _
      simp only [pools, nodes])
    leftAccounts
  have collected : (sideCells (store.levels loc.side)
      (Function.update (cells loc.side) loc.price kept)).map Cell.order =
        (better.flatMap (fun entry => cells loc.side entry.1) ++ front).map Cell.order ++
          { cell.order with quantity := quantity } ::
            (back ++ worse.flatMap (fun entry => cells loc.side entry.1)).map Cell.order := by
    have before := located.around kept (subset_append_left better worse)
    have behind := located.around kept (subset_append_right better worse)
    rw [sideCells, OrderedMap.collect, located.entries, List.flatMap_append, flatMap_cons,
      update_self, before, behind]
    simp only [kept, map_append, map_cons, append_assoc, cons_append]
    rfl
  have changed := valid.book.setQuantity_place (located.view_side placed) quantity
  have final : view { store with pools := store.pools.setQuantity loc.node quantity } =
      store.view.setQuantity cell.order.id quantity := by
    rw [reshaped, changed, ← collected]
    exact viewed
  refine ⟨⟨?_, ?_⟩, final⟩
  · rw [reshaped]
    exact ⟨_, after⟩
  · rw [final]
    exact valid.book.setQuantity _ positive

end Erase

end Qsl.IntrusiveStore
