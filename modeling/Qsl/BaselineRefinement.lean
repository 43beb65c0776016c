import Qsl.BaselineInvariant

namespace Qsl.BaselineStore

open List OrderedMap

variable {lt : Price → Price → Prop}

/-- A level's orders, as the content of its map entry. -/
def levelContent (_ : Price) (level : Level) : List Order := levelOrders level

theorem appendOrders_eq (levels : OrderedMap Price Level lt) :
    appendOrders levels = levels.collect levelContent := rfl

theorem locatedSide_eq (side : Side) (levels : OrderedMap Price Level lt) :
    locatedSide side levels.entries = levels.collect (locatedLevel side) := rfl

section Side

variable {store : BaselineStore}

theorem Valid.filed_orders (valid : store.Valid) (side : Side) :
    ∀ entry ∈ (store.levels side).entries, ∀ order ∈ levelContent entry.1 entry.2,
      order.price = entry.1 := by
  intro entry member order inside
  obtain ⟨node, present, rfl⟩ := mem_map.mp inside
  exact (valid.filed side entry member node present).2

theorem filed_located (side : Side) (price : Price) (level : Level) :
    ∀ pair ∈ locatedLevel side price level, pair.2.price = price := by
  intro pair inside
  obtain ⟨node, _, rfl⟩ := mem_map.mp inside
  rfl

/-- A price without a level reads as one with an empty level. -/
theorem bucket_level {β : Type} (side : Side) {price : Price} (content : Price → Level → List β)
    (vacant : content price [] = []) :
    (store.levels side).bucket content price =
      content price (((store.levels side).find? price).getD []) := by
  rw [OrderedMap.bucket]
  cases (store.levels side).find? price with
  | none => exact vacant.symm
  | some level => rfl

theorem mem_level (side : Side) {price : Price} {node : ListNode}
    (member : node ∈ ((store.levels side).find? price).getD []) :
    ∃ level, (price, level) ∈ (store.levels side).entries ∧ node ∈ level := by
  cases found : (store.levels side).find? price with
  | none =>
    rw [found] at member
    cases member
  | some level =>
    rw [found] at member
    exact ⟨level, OrderedMap.find?_eq_some.mp found, member⟩

/-- An index entry is owed exactly to a node of the level it names. -/
theorem mem_located {id : OrderId} {loc : Locator} :
    (id, loc) ∈ store.located ↔
      ∃ node ∈ ((store.levels loc.side).find? loc.price).getD [],
        node.order.id = id ∧ node.address = loc.it := by
  have sides : (id, loc) ∈ store.located ↔
      (id, loc) ∈ locatedSide loc.side (store.levels loc.side).entries := by
    rw [(store.located_perm loc.side).mem_iff, mem_append]
    refine or_iff_left ?_
    intro elsewhere
    obtain ⟨entry, _, inside⟩ := mem_flatMap.mp elsewhere
    obtain ⟨node, _, same⟩ := mem_map.mp inside
    have sided := congrArg (fun pair => pair.2.side) same
    exact loc.side.opposite_ne sided
  rw [sides, locatedSide_eq, mem_collect]
  constructor
  · intro ⟨entry, member, inside⟩
    obtain ⟨node, present, same⟩ := mem_map.mp inside
    have ids : node.order.id = id := congrArg Prod.fst same
    have prices : entry.1 = loc.price := congrArg (fun pair => pair.2.price) same
    have places : node.address = loc.it := congrArg (fun pair => pair.2.it) same
    rw [← prices, OrderedMap.find?_eq_some.mpr member]
    exact ⟨node, present, ids, places⟩
  · intro ⟨node, member, ids, places⟩
    obtain ⟨level, listed, present⟩ := mem_level loc.side member
    exact ⟨(loc.price, level), listed, mem_map.mpr ⟨node, present, by rw [ids, places]⟩⟩

section

variable (valid : store.Valid) {id : OrderId} {loc : Locator} (resting : (id, loc) ∈ store.located)

include valid resting

/-- Among resting orders, sharing the address is sharing the id. -/
theorem Valid.same_place {pair : OrderId × Locator} (member : pair ∈ store.located) :
    pair.2.it = loc.it ↔ pair.1 = id := by
  constructor
  · intro same
    have equal : pair = (id, loc) :=
      inj_on_of_nodup_map valid.distinct member resting same
    rw [equal]
  · intro same
    have equal : pair = (id, loc) :=
      inj_on_of_nodup_map valid.indexed.nodup member resting same
    rw [equal]

theorem Valid.node_place {side : Side} {entry : Price × Level}
    (listed : entry ∈ (store.levels side).entries) {node : ListNode} (member : node ∈ entry.2) :
    node.address = loc.it ↔ node.order.id = id := by
  have placed : (node.order.id, (⟨side, entry.1, node.address⟩ : Locator)) ∈ store.located := by
    apply mem_located.mpr
    refine ⟨node, ?_, rfl, rfl⟩
    change node ∈ ((store.levels side).find? entry.1).getD []
    rw [OrderedMap.find?_eq_some.mpr listed]
    exact member
  exact valid.same_place resting placed

/-- An order rests in one place only: elsewhere its id does not occur. -/
theorem Valid.elsewhere {side : Side} {entry : Price × Level}
    (listed : entry ∈ (store.levels side).entries) (apart : side ≠ loc.side ∨ entry.1 ≠ loc.price) :
    ∀ node ∈ entry.2, node.order.id ≠ id := by
  intro node member same
  have placed : (node.order.id, (⟨side, entry.1, node.address⟩ : Locator)) ∈ store.located := by
    apply mem_located.mpr
    refine ⟨node, ?_, rfl, rfl⟩
    change node ∈ ((store.levels side).find? entry.1).getD []
    rw [OrderedMap.find?_eq_some.mpr listed]
    exact member
  have equal := inj_on_of_nodup_map valid.indexed.nodup placed resting same
  have sides : side = loc.side := congrArg (fun pair => pair.2.side) equal
  have prices : entry.1 = loc.price := congrArg (fun pair => pair.2.price) equal
  exact apart.elim (fun differ => differ sides) (fun differ => differ prices)

theorem Valid.opposite_ids : ∀ order ∈ store.view.side loc.side.opposite, order.id ≠ id := by
  intro order member
  rw [view_side] at member
  obtain ⟨entry, listed, inside⟩ := mem_flatMap.mp member
  obtain ⟨node, present, rfl⟩ := mem_map.mp inside
  exact valid.elsewhere resting listed (Or.inl loc.side.opposite_ne) node present

end

end Side

/-- Resting a fresh, positive and uncrossed order queues it in the book. -/
theorem Valid.rest {store : BaselineStore} (valid : store.Valid) {id : OrderId} {side : Side}
    {price : Price} {quantity : Quantity} (fresh : store.view.contains id = false)
    (positive : 0 < quantity)
    (apart : ∀ other ∈ store.view.side side.opposite, Better side.opposite price other.price) :
    (store.rest id side price quantity).Valid ∧
      (store.rest id side price quantity).view = store.view.rest ⟨id, side, price, quantity⟩ := by
  let node : ListNode := ⟨store.nextAddress, ⟨id, side, price, quantity⟩⟩
  let level := ((store.levels side).find? price).getD [] ++ [node]
  have orders : appendOrders ((store.levels side).insert price level) =
      (store.view.side side).orderedInsert (fun a b => Better side a.price b.price) node.order := by
    rw [view_side]
    apply collect_insert_append Order.price levelContent levelContent node.order
      (valid.filed_orders side)
    · rw [bucket_level _ levelContent rfl]
      exact map_append
    · intro _ _ _
      rfl
  have located : (locatedSide side ((store.levels side).insert price level).entries).Perm
      ((id, ⟨side, price, store.nextAddress⟩) ::
        locatedSide side (store.levels side).entries) := by
    have inserted : ((store.levels side).insert price level).collect (locatedLevel side) =
        ((store.levels side).collect (locatedLevel side)).orderedInsert
          (fun a b => Better side a.2.price b.2.price)
          (id, ⟨side, price, store.nextAddress⟩) := by
      apply collect_insert_append (fun pair : OrderId × Locator => pair.2.price)
        (locatedLevel side) (locatedLevel side) (id, ⟨side, price, store.nextAddress⟩)
        (fun entry _ => filed_located side entry.1 entry.2)
      · rw [bucket_level _ (locatedLevel _) rfl]
        exact map_append
      · intro _ _ _
        rfl
    rw [locatedSide_eq, locatedSide_eq, inserted]
    exact perm_orderedInsert _ _ _
  have shifted := located.append_right
    (locatedSide side.opposite (store.levels side.opposite).entries)
  have bookValid : (store.view.rest node.order).WellFormed := valid.book.rest fresh positive apart
  constructor
  · apply valid.replace side _ _ _
    · intro entry member
      rcases mem_insert_entries member with rfl | ⟨old, _⟩
      · exact append_ne_nil_of_right_ne_nil _ (cons_ne_nil _ _)
      · exact valid.occupied side entry old
    · intro entry member other inside
      rcases mem_insert_entries member with rfl | ⟨old, _⟩
      · rcases mem_append.mp inside with earlier | last
        · obtain ⟨source, listed, present⟩ := mem_level side earlier
          exact valid.filed side _ listed other present
        · rw [mem_singleton.mp last]
          exact ⟨rfl, rfl⟩
      · exact valid.filed side entry old other inside
    · apply OrderedMap.Indexes.perm _ shifted.symm
      apply (valid.indexed_side side).insert_fresh
      rw [← ((store.located_perm side).map Prod.fst).mem_iff, located_ids, ← Book.contains_iff,
        fresh]
      exact Bool.false_ne_true
    · apply (shifted.map _).nodup_iff.mpr
      apply nodup_cons.mpr
      refine ⟨?_, valid.distinct_side side⟩
      intro member
      obtain ⟨pair, present, same⟩ := mem_map.mp member
      have low := valid.allocated pair ((store.located_perm side).mem_iff.mpr present)
      have same : pair.2.it = store.nextAddress := same
      omega
    · intro pair member
      rcases mem_cons.mp (located.mem_iff.mp member) with rfl | old
      · exact Nat.lt_succ_self _
      · have low := valid.allocated pair
          ((store.located_perm side).mem_iff.mpr (mem_append_left _ old))
        omega
    · omega
    · rw [orders]
      exact bookValid
  · rw [BaselineStore.rest, view_setLevels]
    exact congrArg _ orders

section Remove

variable {store : BaselineStore}

theorem filter_elsewhere {id : OrderId} {level : Level}
    (absent : ∀ node ∈ level, node.order.id ≠ id) :
    level.filter (fun node => node.order.id ≠ id) = level := by
  apply filter_eq_self.mpr
  intro node member
  simpa using absent node member

theorem levelOrders_filter (id : OrderId) (level : Level) :
    levelOrders (level.filter (fun node => node.order.id ≠ id)) =
      (levelOrders level).filter (fun order => order.id ≠ id) := by
  rw [levelOrders, levelOrders, filter_map]
  rfl

theorem locatedLevel_filter (side : Side) (price : Price) (id : OrderId) (level : Level) :
    locatedLevel side price (level.filter (fun node => node.order.id ≠ id)) =
      (locatedLevel side price level).filter (fun pair => pair.1 ≠ id) := by
  rw [locatedLevel, locatedLevel, filter_map]
  rfl

/-- `erase_level_if_empty` never changes what the map holds. -/
theorem collect_eraseLevelIfEmpty [DecidableRel lt] [IsStrictTotalOrder Price lt] {α : Type}
    (levels : OrderedMap Price Level lt) (price : Price) (level : Level)
    (content : Price → Level → List α) (vacant : content price [] = []) :
    (eraseLevelIfEmpty (levels.insert price level) price level).collect content =
      (levels.insert price level).collect content := by
  rw [eraseLevelIfEmpty]
  split
  · rename_i empty
    apply collect_erase
    rw [bucket_insert, if_pos rfl, List.isEmpty_iff.mp empty, vacant]
  · rfl

variable {id : OrderId} {loc : Locator}

section

variable (valid : store.Valid) (resting : (id, loc) ∈ store.located)

include valid resting

/-- The level a locator names, with the order's node unlinked. -/
theorem Valid.filter_place :
    (((store.levels loc.side).find? loc.price).getD []).filter
        (fun node => node.address ≠ loc.it) =
      (((store.levels loc.side).find? loc.price).getD []).filter
        (fun node => node.order.id ≠ id) := by
  apply filter_congr
  intro node member
  obtain ⟨level, listed, present⟩ := mem_level loc.side member
  have place := valid.node_place resting listed present
  simp only [ne_eq, place]

/-- Whatever is read off the levels is, once the order is erased, what was read before without
it. -/
theorem Valid.collect_erased {β : Type} (content : Price → Level → List β) (keep : β → Bool)
    (vacant : content loc.price [] = [])
    (filters : ∀ price level, content price (level.filter (fun node => node.order.id ≠ id)) =
      (content price level).filter keep) :
    let level := (((store.levels loc.side).find? loc.price).getD []).filter
      (fun node => node.order.id ≠ id)
    (eraseLevelIfEmpty ((store.levels loc.side).insert loc.price level) loc.price level).collect
        content = ((store.levels loc.side).collect content).filter keep := by
  intro level
  rw [collect_eraseLevelIfEmpty _ _ _ _ vacant, ← filterMap_eq_filter]
  apply collect_insert_filterMap content content
  · rw [bucket_level loc.side content vacant, filterMap_eq_filter]
    exact filters loc.price _
  · intro entry listed apart
    have kept := filter_elsewhere (valid.elsewhere resting listed (Or.inr apart))
    have mapped := filters entry.1 entry.2
    rw [kept] at mapped
    rw [filterMap_eq_filter]
    exact mapped

/-- Erasing through the index removes the order from the book. -/
theorem Valid.eraseRestingOrder :
    let erased := BaselineStore.eraseRestingOrder { store with index := store.index.erase id } loc
    erased.Valid ∧ erased.view = store.view.remove id := by
  let level := (((store.levels loc.side).find? loc.price).getD []).filter
    (fun node => node.order.id ≠ id)
  let levels := eraseLevelIfEmpty ((store.levels loc.side).insert loc.price level) loc.price level
  have reshaped : BaselineStore.eraseRestingOrder { store with index := store.index.erase id } loc =
      { store.setLevels loc.side levels with index := store.index.erase id } := by
    have place := valid.filter_place resting
    rcases store with ⟨bids, asks, index, nextAddress⟩
    rcases loc with ⟨side, price, it⟩
    cases side
    · simp only [BaselineStore.eraseRestingOrder, eraseFromSide, setLevels, levels, level] at place ⊢
      rw [← place]
      rfl
    · simp only [BaselineStore.eraseRestingOrder, eraseFromSide, setLevels, levels, level] at place ⊢
      rw [← place]
      rfl
  have orders : appendOrders levels =
      (store.view.side loc.side).filter (fun order => order.id ≠ id) := by
    rw [appendOrders_eq, view_side, appendOrders_eq]
    exact valid.collect_erased resting levelContent _ rfl (fun _ => levelOrders_filter id)
  have located : locatedSide loc.side levels.entries =
      (locatedSide loc.side (store.levels loc.side).entries).filter (fun pair => pair.1 ≠ id) := by
    rw [locatedSide_eq, locatedSide_eq]
    exact valid.collect_erased resting (locatedLevel loc.side) _ rfl
      (fun price => locatedLevel_filter loc.side price id)
  have others : (locatedSide loc.side.opposite (store.levels loc.side.opposite).entries).filter
      (fun pair => pair.1 ≠ id) =
        locatedSide loc.side.opposite (store.levels loc.side.opposite).entries := by
    apply filter_eq_self.mpr
    intro pair member
    obtain ⟨entry, listed, inside⟩ := mem_flatMap.mp member
    obtain ⟨node, present, rfl⟩ := mem_map.mp inside
    have absent := valid.elsewhere resting listed (Or.inl loc.side.opposite_ne) node present
    simpa using absent
  have kept : (locatedSide loc.side levels.entries ++
      locatedSide loc.side.opposite (store.levels loc.side.opposite).entries).Sublist
        (locatedSide loc.side (store.levels loc.side).entries ++
          locatedSide loc.side.opposite (store.levels loc.side.opposite).entries) := by
    rw [located]
    exact filter_sublist.append_right _
  have removed : store.view.setSide loc.side (appendOrders levels) = store.view.remove id := by
    rw [orders, Book.remove_eq_setSide (valid.opposite_ids resting)]
  rw [reshaped]
  constructor
  · apply valid.replace loc.side
    · intro entry member
      rcases mem_insert_erase_if member with ⟨rfl, occupied⟩ | ⟨old, _⟩
      · simpa using occupied
      · exact valid.occupied loc.side entry old
    · intro entry member node inside
      rcases mem_insert_erase_if member with ⟨rfl, _⟩ | ⟨old, _⟩
      · obtain ⟨source, listed, present⟩ := mem_level loc.side (mem_filter.mp inside).1
        exact valid.filed loc.side _ listed node present
      · exact valid.filed loc.side entry old node inside
    · have erased := (valid.indexed_side loc.side).erase id
      rw [filter_append, ← located, others] at erased
      exact erased
    · exact (valid.distinct_side loc.side).sublist (kept.map _)
    · intro pair member
      rw [nextAddress_setLevels]
      exact valid.allocated pair ((store.located_perm loc.side).mem_iff.mpr
        (kept.subset (mem_append_left _ member)))
    · rw [nextAddress_setLevels]
    · rw [removed]
      exact valid.book.remove id
  · rw [← removed]
    exact view_setLevels store loc.side levels _ _

end

end Remove

section Reduce

variable {store : BaselineStore} {id : OrderId} {loc : Locator}

/-- The order an index entry leads to. -/
theorem Valid.find?_order (valid : store.Valid) (resting : (id, loc) ∈ store.located) :
    ∃ node, store.nodeAt loc = some node ∧ store.view.find? id = some node.order ∧
      node.order.side = loc.side ∧ node.order.price = loc.price := by
  obtain ⟨node, member, ids, place⟩ := mem_located.mp resting
  obtain ⟨level, listed, present⟩ := mem_level loc.side member
  have found : store.nodeAt loc = some node := by
    apply Book.find?_of_only member (decide_eq_true place)
    intro other inside hit
    obtain ⟨level', listed', present'⟩ := mem_level loc.side inside
    have sameLevel : level' = level :=
      Option.some.inj ((OrderedMap.find?_eq_some.mpr listed').symm.trans
        (OrderedMap.find?_eq_some.mpr listed))
    have sameId := (valid.node_place resting listed' present').mp (of_decide_eq_true hit)
    have unique : (level.map (fun node => node.order.id)).Nodup := by
      have ids := valid.book.unique_side loc.side
      rw [view_side, appendOrders_eq] at ids
      have sub : (levelOrders level).Sublist ((store.levels loc.side).collect levelContent) :=
        sublist_flatten_of_mem (mem_map_of_mem listed)
      have mapped := ids.sublist (sub.map Order.id)
      rwa [levelOrders, map_map] at mapped
    exact inj_on_of_nodup_map unique (sameLevel ▸ present') present (sameId.trans ids.symm)
  have filed := valid.filed loc.side _ listed node present
  refine ⟨node, found, ?_, filed⟩
  apply (Book.find?_eq_some valid.book.unique).mpr
  refine ⟨Book.mem_restingOrders.mpr ⟨loc.side, ?_⟩, ids⟩
  rw [view_side, appendOrders_eq]
  exact mem_collect.mpr ⟨_, listed, mem_map_of_mem present⟩

/-- A node with its order's quantity replaced when the order has the given id. -/
def reduceNode (id : OrderId) (quantity : Quantity) (node : ListNode) : ListNode :=
  { node with order := Book.reduce id quantity node.order }

theorem levelOrders_reduce (id : OrderId) (quantity : Quantity) (level : Level) :
    levelOrders (level.map (reduceNode id quantity)) =
      (levelOrders level).filterMap (some ∘ Book.reduce id quantity) := by
  rw [filterMap_eq_map, levelOrders, levelOrders, map_map, map_map]
  rfl

theorem locatedLevel_reduce (side : Side) (price : Price) (id : OrderId) (quantity : Quantity)
    (level : Level) :
    locatedLevel side price (level.map (reduceNode id quantity)) =
      locatedLevel side price level := by
  rw [locatedLevel, locatedLevel, map_map]
  apply map_congr_left
  intro node _
  have same : (Book.reduce id quantity node.order).id = node.order.id :=
    congrArg Prod.fst (Book.reduce_tag id quantity node.order)
  simp only [Function.comp_apply, reduceNode, same]

theorem reduce_elsewhere {id : OrderId} (quantity : Quantity) {level : Level}
    (absent : ∀ node ∈ level, node.order.id ≠ id) :
    level.map (reduceNode id quantity) = level := by
  have same : ∀ node ∈ level, reduceNode id quantity node = node := by
    intro node member
    rw [reduceNode, Book.reduce, if_neg (absent node member)]
  exact (map_congr_left same).trans (map_id _)

/-- Writing a quantity through the index changes it in place in the book. -/
theorem Valid.setQuantity (valid : store.Valid) (resting : (id, loc) ∈ store.located)
    {quantity : Quantity} (positive : 0 < quantity) :
    (store.setQuantity loc quantity).Valid ∧
      (store.setQuantity loc quantity).view = store.view.setQuantity id quantity := by
  let level := ((store.levels loc.side).find? loc.price).getD []
  let levels := (store.levels loc.side).insert loc.price (level.map (reduceNode id quantity))
  have reshaped : store.setQuantity loc quantity = store.setLevels loc.side levels := by
    have nodes : level.map (fun node => if node.address = loc.it then
        { node with order := { node.order with quantity := quantity } } else node) =
          level.map (reduceNode id quantity) := by
      apply map_congr_left
      intro node member
      obtain ⟨_, listed, present⟩ := mem_level loc.side member
      have place := valid.node_place resting listed present
      simp only [reduceNode, Book.reduce, place]
      split <;> rfl
    rw [BaselineStore.setQuantity, nodes]
  have orders : appendOrders levels =
      (store.view.side loc.side).map (Book.reduce id quantity) := by
    rw [view_side, appendOrders_eq, appendOrders_eq, ← filterMap_eq_map]
    apply collect_insert_filterMap levelContent levelContent
    · rw [bucket_level _ levelContent rfl]
      exact levelOrders_reduce id quantity _
    · intro entry listed apart
      have kept := reduce_elsewhere quantity (valid.elsewhere resting listed (Or.inr apart))
      have mapped := levelOrders_reduce id quantity entry.2
      rw [kept] at mapped
      exact mapped
  have located : locatedSide loc.side levels.entries =
      locatedSide loc.side (store.levels loc.side).entries := by
    have mapped : levels.collect (locatedLevel loc.side) =
        ((store.levels loc.side).collect (locatedLevel loc.side)).filterMap some := by
      apply collect_insert_filterMap (locatedLevel loc.side) (locatedLevel loc.side)
      · rw [bucket_level _ (locatedLevel _) rfl, filterMap_some]
        exact locatedLevel_reduce loc.side loc.price id quantity _
      · intro entry listed apart
        exact filterMap_some.symm
    rw [locatedSide_eq, locatedSide_eq, mapped, filterMap_some]
  have changed : store.view.setSide loc.side (appendOrders levels) =
      store.view.setQuantity id quantity := by
    rw [orders, Book.setQuantity_eq_setSide quantity (valid.opposite_ids resting)]
  rw [reshaped]
  constructor
  · apply valid.replace loc.side levels (store.setLevels loc.side levels).index
      (store.setLevels loc.side levels).nextAddress
    · intro entry member
      rcases mem_insert_entries member with rfl | ⟨old, _⟩
      · obtain ⟨node, inside, _⟩ := mem_located.mp resting
        have occupied : level ≠ [] := ne_nil_of_mem inside
        simpa using occupied
      · exact valid.occupied loc.side entry old
    · intro entry member node inside
      rcases mem_insert_entries member with rfl | ⟨old, _⟩
      · obtain ⟨source, present, rfl⟩ := mem_map.mp inside
        obtain ⟨_, listed, held⟩ := mem_level loc.side present
        have filed := valid.filed loc.side _ listed source held
        have tag := Book.reduce_tag id quantity source.order
        exact ⟨(congrArg (fun tag => tag.2.1) tag).trans filed.1,
          (congrArg (fun tag => tag.2.2) tag).trans filed.2⟩
      · exact valid.filed loc.side entry old node inside
    · rw [located, index_setLevels]
      exact valid.indexed_side loc.side
    · rw [located]
      exact valid.distinct_side loc.side
    · intro pair member
      rw [located] at member
      rw [nextAddress_setLevels]
      exact valid.allocated pair
        ((store.located_perm loc.side).mem_iff.mpr (mem_append_left _ member))
    · rw [nextAddress_setLevels]
    · rw [changed]
      exact valid.book.setQuantity id positive
  · rw [← changed]
    exact view_setLevels store loc.side levels _ _

end Reduce

end Qsl.BaselineStore
