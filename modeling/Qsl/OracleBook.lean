import Qsl.OracleMatching

/- Each operation of the oracle's book is that of the priority book. -/
namespace Qsl.Oracle

open List OrderedMap
open ReplayEngine (IMap matchBook)

variable {id : OrderId} {order : Order} {price : Int}

/-- The price map of a side. -/
def levelsOf (b : ReplayEngine.Book) : Side → IMap (List ReplayEngine.Order)
  | .buy => b.bids
  | .sell => b.asks

/-- The oracle's book holds the orders of the priority book and where each one rests. -/
structure Mirrors (b : ReplayEngine.Book) (book : Book) : Prop where
  levels : ∀ side, Levels (levelsOf b side) (book.side side)
  locs : b.locs.Indexes (book.restingOrders.map locOf)

theorem mirrors_empty : Mirrors ReplayEngine.emptyBook .empty where
  levels := by
    intro side
    cases side <;> exact groups_empty
  locs := indexes_empty

section Ids

variable {b : ReplayEngine.Book} {book : Book}

theorem id_inj {a b : OrderId} : (a.toNat : Int) = b.toNat ↔ a = b := by
  rw [← UInt64.toNat_inj]
  exact Int.ofNat_inj

theorem Mirrors.contains_eq (mirrors : Mirrors b book) (id : OrderId) :
    ReplayEngine.contains b id.toNat = book.contains id := by
  rw [Bool.eq_iff_iff, Book.contains_iff, ReplayEngine.contains, mirrors.locs.contains_iff]
  simp only [mem_map, exists_exists_and_eq_and, locOf, id_inj]

theorem Mirrors.find?_loc (mirrors : Mirrors b book) (valid : book.WellFormed) (id : OrderId) :
    b.locs.find? id.toNat =
      (book.find? id).map (fun order => (order.side, order.price.toInt)) := by
  cases found : book.find? id with
  | some order =>
    obtain ⟨member, rfl⟩ := (Book.find?_eq_some valid.unique).mp found
    exact mirrors.locs.find?.mpr (mem_map_of_mem member)
  | none =>
    have absent := Book.find?_eq_none.mp found
    rw [← mirrors.contains_eq, ReplayEngine.contains, OrderedMap.contains,
      Option.isSome_eq_false_iff, Option.isNone_iff_eq_none] at absent
    rw [absent]
    rfl

end Ids

/-- Both sides in the order the oracle's taker meets them: the locations of the opposite
side, then those of its own. -/
theorem restingOrders_perm (book : Book) (side : Side) :
    (book.restingOrders.map locOf).Perm
      ((book.side side).map locOf ++ (book.side side.opposite).map locOf) := by
  rw [Book.restingOrders, map_append]
  cases side with
  | buy => exact List.Perm.refl _
  | sell => exact perm_append_comm

/-- The match that opens both kinds of new order. -/
theorem Mirrors.matchBook_eq {b : ReplayEngine.Book} {book : Book} (mirrors : Mirrors b book)
    (valid : book.WellFormed) (taker : Taker) (quantity : Quantity) :
    let swept := book.matchTaker taker quantity
    ∃ b', matchBook b taker.id.toNat taker.side taker.limit.toInt taker.isMarket quantity.toNat =
        (b', swept.trades.map tradeOf, (swept.remaining.toNat : Int)) ∧
      Mirrors b' (book.setSide taker.side.opposite swept.left) := by
  have located := mirrors.locs.perm (restingOrders_perm book taker.side.opposite)
  obtain ⟨levels, locs, matched, grouped, relocated⟩ :=
    matchQty_eq (valid.sorted taker.side.opposite) (mirrors.levels taker.side.opposite) located
      quantity ((levelsOf b taker.side.opposite).size + 1) (Or.inr (Nat.le_succ _)) []
  have opposite : (if taker.side == .buy then b.asks else b.bids) =
      levelsOf b taker.side.opposite := by
    cases taker.side <;> rfl
  rw [matchBook]
  simp only [opposite, matched, append_nil, reverse_reverse]
  refine ⟨_, rfl, ?_, ?_⟩
  · intro side
    have own := mirrors.levels taker.side
    rcases taker.side.eq_or_eq_opposite side with rfl | rfl
    · rw [Book.setSide_other]
      cases direction : taker.side <;> rw [direction] at own <;> exact own
    · rw [Book.setSide_same]
      cases direction : taker.side <;> exact grouped
  · have restored := (restingOrders_perm
      (book.setSide taker.side.opposite (book.matchTaker taker quantity).left)
      taker.side.opposite).symm
    rw [Book.setSide_same, Book.setSide_opposite] at restored
    have final := relocated.perm restored
    cases direction : taker.side <;> rw [direction] at final <;> exact final

theorem levelsOf_restOrder (b : ReplayEngine.Book) (side : Side) (price : Int)
    (order : ReplayEngine.Order) (other : Side) :
    levelsOf (ReplayEngine.restOrder b side price order) other =
      if other = side then (levelsOf b side).insert price
        (((levelsOf b side).find? price).getD [] ++ [order])
      else levelsOf b other := by
  cases side <;> cases other <;> rfl

section Change

variable {b : ReplayEngine.Book} {book : Book}

/-- A level as the oracle reads it, an absent one as empty. -/
theorem Mirrors.level_getD (mirrors : Mirrors b book) (side : Side) (price : Int) :
    ((levelsOf b side).find? price).getD [] = levelAt (book.side side) price := by
  rw [mirrors.levels side price, OrderedMap.present]
  split
  · rename_i vacant
    exact (List.isEmpty_iff.mp vacant).symm
  · rfl

theorem levelAt_rest {book : Book} (valid : book.WellFormed) (order : Order) (price : Int) :
    levelAt ((book.rest order).side order.side) price =
      levelAt (book.side order.side) price ++
        if order.price.toInt = price then [entryOf order] else [] := by
  have sameTick : ∀ x y : Order, decide (tick x = price) = true →
      decide (tick y = price) = true → x.price = y.price := by
    intro x y hitX hitY
    exact Int64.toInt_inj.mp ((of_decide_eq_true hitX).trans (of_decide_eq_true hitY).symm)
  rw [Book.rest, Book.setSide_same]
  simp only [levelAt, OrderedMap.groupAt]
  rw [filter_orderedInsert (valid.sorted order.side) order sameTick, map_append]
  by_cases priced : order.price.toInt = price <;> simp [tick, priced]

section

variable (mirrors : Mirrors b book) (valid : book.WellFormed)

include mirrors valid

/-- Resting behind the level's orders is insertion by priority. -/
theorem Mirrors.rest (order : Order) (fresh : book.contains order.id = false) :
    Mirrors (ReplayEngine.restOrder b order.side order.price.toInt (entryOf order))
      (book.rest order) := by
  refine ⟨?_, ?_⟩
  · intro side
    rw [levelsOf_restOrder]
    by_cases same : side = order.side
    · subst same
      have joined := levelAt_rest valid order order.price.toInt
      rw [if_pos rfl] at joined
      rw [if_pos rfl, mirrors.level_getD, ← joined]
      apply (mirrors.levels order.side).insert
      · intro other differ
        have kept := levelAt_rest valid order other
        rwa [if_neg (Ne.symm differ), append_nil] at kept
      · intro vacant
        have both := append_eq_nil_iff.mp (joined.symm.trans vacant)
        cases both.2
    · rw [if_neg same]
      have other := (order.side.eq_or_eq_opposite side).resolve_left same
      subst other
      rw [Book.rest, Book.setSide_opposite]
      exact mirrors.levels order.side.opposite
  · have absent : (order.id.toNat : Int) ∉ (book.restingOrders.map locOf).map Prod.fst := by
      rw [← mirrors.locs.contains_iff]
      exact (Bool.eq_false_iff.mp ((mirrors.contains_eq order.id).trans fresh))
    have entered : OrderedMap.Indexes
        (b.locs.insert order.id.toNat (order.side, order.price.toInt))
        ((order :: book.restingOrders).map locOf) := mirrors.locs.insert_fresh absent
    have located := entered.perm ((Book.rest_perm book order).map locOf).symm
    rcases order with ⟨id, side, price, quantity⟩
    cases side <;> exact located

/-- A new limit order with an unused id. -/
theorem Mirrors.addLimit (fresh : book.contains id = false) (side : Side) (price : Price)
    (quantity : Quantity) (tif : TimeInForce) :
    ∃ b', ReplayEngine.addLimit b id.toNat side price.toInt quantity.toNat tif =
        (b', (book.addLimit id side price quantity tif).2.map tradeOf) ∧
      Mirrors b' (book.addLimit id side price quantity tif).1 := by
  obtain ⟨crossed, matched, mirrored⟩ :=
    mirrors.matchBook_eq valid ⟨id, side, price, false⟩ quantity
  simp only [ReplayEngine.addLimit, matched, Book.addLimit, fresh, Bool.false_eq_true, if_false]
  by_cases rests : (book.matchTaker ⟨id, side, price, false⟩ quantity).remaining ≠ 0 ∧ tif = .gtc
  · have waiting := (quantity_pos _).mpr rests.1
    rw [if_pos rests, if_pos ⟨by rw [UInt32.lt_iff_toNat_lt] at waiting; exact_mod_cast waiting,
      rests.2⟩]
    refine ⟨_, rfl, ?_⟩
    exact mirrored.rest (valid.matched ⟨id, side, price, false⟩ quantity)
      ⟨id, side, price, _⟩ (Book.matched_fresh fresh ⟨id, side, price, false⟩ quantity)
  · have stays : ¬ (((book.matchTaker ⟨id, side, price, false⟩ quantity).remaining.toNat : Int) > 0 ∧
        tif = .gtc) := by
      rintro ⟨positive, gtc⟩
      refine rests ⟨?_, gtc⟩
      intro zero
      rw [zero] at positive
      exact absurd positive (by decide)
    rw [if_neg rests, if_neg stays]
    exact ⟨crossed, rfl, mirrored⟩

theorem Mirrors.addMarket (fresh : book.contains id = false) (side : Side) (quantity : Quantity) :
    ∃ b', ReplayEngine.addMarket b id.toNat side quantity.toNat =
        (b', (book.addMarket id side quantity).2.map tradeOf) ∧
      Mirrors b' (book.addMarket id side quantity).1 := by
  obtain ⟨crossed, matched, mirrored⟩ := mirrors.matchBook_eq valid ⟨id, side, 0, true⟩ quantity
  have zero : (0 : Price).toInt = 0 := rfl
  simp only [zero] at matched
  simp only [ReplayEngine.addMarket, matched, Book.addMarket, fresh, Bool.false_eq_true, if_false]
  exact ⟨crossed, rfl, mirrored⟩

/-- The level that holds an order, as the oracle looks it up. -/
theorem Mirrors.find?_level (member : order ∈ book.restingOrders) :
    (levelsOf b order.side).find? order.price.toInt =
      some (levelAt (book.side order.side) order.price.toInt) :=
  (mirrors.levels order.side).find?_of_mem (valid.mem_side.mpr ⟨member, rfl⟩)

end

theorem levelAt_remove (orders : List Order) (id : OrderId) (price : Int) :
    levelAt (orders.filter (fun order => order.id ≠ id)) price =
      (levelAt orders price).filter (fun entry => entry.id ≠ (id.toNat : Int)) := by
  simp only [levelAt, OrderedMap.groupAt, filter_map, filter_filter]
  congr 1
  apply filter_congr
  intro order _
  simp only [Function.comp_apply, entryOf, ne_eq, id_inj, Bool.and_comm]

/-- What is done to one order does not show at another price. -/
theorem levelAt_elsewhere {orders : List Order}
    (alone : ∀ other ∈ orders, other.id = order.id → other = order)
    (elsewhere : price ≠ order.price.toInt) :
    levelAt (orders.filter (fun other => other.id ≠ order.id)) price = levelAt orders price := by
  simp only [levelAt, OrderedMap.groupAt, filter_filter]
  congr 1
  apply filter_congr
  intro other member
  by_cases same : other.id = order.id
  · have moved : tick other ≠ price := by
      rw [alone other member same]
      exact elsewhere.symm
    simp [moved]
  · simp [same]

theorem levelsOf_cancel {id : Int} {side : Side} {level : List ReplayEngine.Order}
    (located : b.locs.find? id = some (side, price))
    (found : (levelsOf b side).find? price = some level) (other : Side) :
    levelsOf (ReplayEngine.cancel b id).1 other =
      if other = side then
        (levelsOf b side).putGroup price (level.filter (fun entry => entry.id ≠ id))
      else levelsOf b other := by
  rw [ReplayEngine.cancel, located]
  rw [← putGroup_eq]
  cases side with
  | _ =>
    rw [levelsOf] at found
    cases other <;> simp only [found] <;> rfl

theorem cancel_locs {id : Int} {side : Side} (located : b.locs.find? id = some (side, price)) :
    (ReplayEngine.cancel b id).1.locs = b.locs.erase id := by
  rw [ReplayEngine.cancel, located]
  cases side <;> rfl

theorem only_order (valid : book.WellFormed) (member : order ∈ book.restingOrders) (side : Side) :
    ∀ other ∈ book.side side, other.id = order.id → other = order := by
  intro other inside same
  exact inj_on_of_nodup_map valid.unique (Book.mem_restingOrders.mpr ⟨side, inside⟩) member same

/-- Taking a resting order out of its level and out of the locations. -/
theorem Mirrors.cancel (mirrors : Mirrors b book) (valid : book.WellFormed)
    (found : book.find? id = some order) :
    Mirrors (ReplayEngine.cancel b id.toNat).1 (book.remove id) := by
  have located := mirrors.find?_loc valid id
  have opposite := (valid.remove_opposite found).1
  rw [found] at located
  obtain ⟨member, rfl⟩ := (Book.find?_eq_some valid.unique).mp found
  refine ⟨?_, ?_⟩
  · intro side
    rw [levelsOf_cancel located (mirrors.find?_level valid member)]
    split
    · rename_i same
      subst same
      rw [← levelAt_remove, ← Book.remove_side]
      apply (mirrors.levels order.side).put
      intro price elsewhere
      rw [Book.remove_side]
      exact levelAt_elsewhere (only_order valid member order.side) elsewhere
    · rename_i differ
      have other := (order.side.eq_or_eq_opposite side).resolve_left differ
      subst other
      rw [opposite]
      exact mirrors.levels order.side.opposite
  · rw [cancel_locs located]
    have erased := mirrors.locs.erase order.id.toNat
    rw [filter_map] at erased
    have kept : (book.remove order.id).restingOrders =
        book.restingOrders.filter (fun other => other.id ≠ order.id) := by
      rw [Book.restingOrders, Book.restingOrders, filter_append]
      rfl
    rw [kept]
    refine erased.perm (List.Perm.of_eq ?_)
    congr 1
    apply filter_congr
    intro other _
    simp only [Function.comp_apply, locOf, ne_eq, id_inj]

theorem mem_levelAt {orders : List Order} {entry : ReplayEngine.Order}
    (member : entry ∈ levelAt orders price) :
    ∃ order ∈ orders, order.price.toInt = price ∧ entryOf order = entry := by
  obtain ⟨order, filtered, same⟩ := mem_map.mp member
  obtain ⟨inside, hit⟩ := mem_filter.mp filtered
  exact ⟨order, inside, of_decide_eq_true hit, same⟩

theorem Mirrors.restingQty_eq (mirrors : Mirrors b book) (valid : book.WellFormed)
    (member : order ∈ book.restingOrders) :
    ReplayEngine.restingQty b order.side order.price.toInt order.id.toNat = order.quantity.toNat := by
  have side : (if order.side = .buy then b.bids else b.asks) = levelsOf b order.side := by
    cases order.side <;> rfl
  have own : entryOf order ∈ levelAt (book.side order.side) order.price.toInt :=
    mem_map_of_mem
      (mem_filter.mpr ⟨valid.mem_side.mpr ⟨member, rfl⟩, decide_eq_true rfl⟩)
  have hit : (levelAt (book.side order.side) order.price.toInt).find?
      (fun entry => entry.id = (order.id.toNat : Int)) = some (entryOf order) := by
    apply Book.find?_of_only own (decide_eq_true rfl)
    intro entry listed same
    obtain ⟨other, inside, _, rfl⟩ := mem_levelAt listed
    rw [only_order valid member order.side other inside (id_inj.mp (of_decide_eq_true same))]
  rw [ReplayEngine.restingQty]
  simp only [side, mirrors.find?_level valid member, hit]
  rfl

/-- The oracle's rewrite of one entry. -/
def setQty (id : OrderId) (quantity : Quantity) (entry : ReplayEngine.Order) : ReplayEngine.Order :=
  if entry.id = id.toNat then { entry with qty := quantity.toNat } else entry

theorem levelAt_setQuantity (book : Book) (id : OrderId) (quantity : Quantity) (side : Side)
    (price : Int) :
    levelAt ((book.setQuantity id quantity).side side) price =
      (levelAt (book.side side) price).map (setQty id quantity) := by
  have ticks : (fun order => decide (tick order = price)) ∘ Book.reduce id quantity =
      fun order => decide (tick order = price) := by
    funext order
    have tags := Book.reduce_tag id quantity order
    have same : (Book.reduce id quantity order).price = order.price :=
      congrArg (fun tag => tag.2.2) tags
    show decide ((Book.reduce id quantity order).price.toInt = price) =
      decide (order.price.toInt = price)
    rw [same]
  have entries : entryOf ∘ Book.reduce id quantity = setQty id quantity ∘ entryOf := by
    funext order
    simp only [Function.comp_apply, Book.reduce, setQty, entryOf, id_inj]
    split <;> rfl
  rw [Book.setQuantity_side]
  simp only [levelAt, OrderedMap.groupAt, filter_map, map_map, ticks, entries]

/-- No other level has an entry to rewrite. -/
theorem setQty_elsewhere (valid : book.WellFormed) (member : order ∈ book.restingOrders)
    (quantity : Quantity) {side : Side}
    (elsewhere : ¬ (side = order.side ∧ price = order.price.toInt)) :
    (levelAt (book.side side) price).map (setQty order.id quantity) =
      levelAt (book.side side) price := by
  refine (map_congr_left ?_).trans (map_id _)
  intro entry listed
  obtain ⟨other, inside, priced, rfl⟩ := mem_levelAt listed
  apply if_neg
  intro same
  have equal := only_order valid member side other inside (id_inj.mp same)
  subst equal
  exact elsewhere ⟨(valid.sided side other inside).symm, priced.symm⟩

/-- Rewriting the entry in its level is reducing the order in its place. -/
theorem Mirrors.setQuantity (mirrors : Mirrors b book) (valid : book.WellFormed)
    (member : order ∈ book.restingOrders) (quantity : Quantity) {b' : ReplayEngine.Book}
    (levels : ∀ side, levelsOf b' side =
      if side = order.side then (levelsOf b order.side).insert order.price.toInt
        ((levelAt (book.side order.side) order.price.toInt).map (setQty order.id quantity))
      else levelsOf b side) (locs : b'.locs = b.locs) :
    Mirrors b' (book.setQuantity order.id quantity) := by
  refine ⟨?_, ?_⟩
  · intro side
    rw [levels]
    split
    · rename_i same
      subst same
      rw [← levelAt_setQuantity]
      apply (mirrors.levels order.side).insert
      · intro price elsewhere
        refine (levelAt_setQuantity book order.id quantity order.side price).trans ?_
        exact setQty_elsewhere valid member quantity (fun both => elsewhere both.2)
      · intro vacant
        have none := (levelAt_setQuantity book order.id quantity order.side _).symm.trans vacant
        exact groupAt_ne_nil (valid.mem_side.mpr ⟨member, rfl⟩)
          (map_eq_nil_iff.mp none)
    · rename_i differ
      intro price
      have same := (levelAt_setQuantity book order.id quantity side price).trans
        (setQty_elsewhere valid member quantity (fun both => differ both.1))
      exact (mirrors.levels side price).trans (congrArg OrderedMap.present same.symm)
  · rw [locs]
    have kept : (book.setQuantity order.id quantity).restingOrders.map locOf =
        book.restingOrders.map locOf := by
      have mapped : (book.setQuantity order.id quantity).restingOrders =
          book.restingOrders.map (Book.reduce order.id quantity) := by
        rw [Book.restingOrders, Book.restingOrders, map_append]
        rfl
      rw [mapped, map_map]
      apply map_congr_left
      intro other _
      have tags := Book.reduce_tag order.id quantity other
      exact congrArg (fun tag => ((tag.1.toNat : Int), tag.2.1, tag.2.2.toInt)) tags
    rw [kept]
    exact mirrors.locs

/-- A modify of a resting order: it cancels, rewrites in place or requeues. -/
theorem Mirrors.modify (mirrors : Mirrors b book) (valid : book.WellFormed)
    (known : book.contains id = true) (newPrice : Price) (newQuantity : Quantity) :
    ∃ b', ReplayEngine.modifyBook b id.toNat newPrice.toInt newQuantity.toNat =
        (b', (book.modify id newPrice newQuantity).2.map tradeOf) ∧
      Mirrors b' (book.modify id newPrice newQuantity).1 := by
  cases found : book.find? id with
  | none =>
    rw [Book.find?_eq_none.mp found] at known
    cases known
  | some order =>
    have located := mirrors.find?_loc valid id
    have removed := mirrors.cancel valid found
    have fresh := (valid.remove_opposite found).2
    rw [found] at located
    obtain ⟨member, rfl⟩ := (Book.find?_eq_some valid.unique).mp found
    have resting := mirrors.restingQty_eq valid member
    rw [ReplayEngine.modifyBook, Book.modify, located, found]
    simp only [Option.map_some, resting, quantity_eq_zero, Int64.toInt_inj]
    by_cases zero : newQuantity = 0
    · rw [if_pos zero, if_pos zero]
      exact ⟨_, rfl, removed⟩
    rw [if_neg zero, if_neg zero]
    by_cases inPlace : newPrice = order.price ∧ newQuantity ≤ order.quantity
    · have small := UInt32.le_iff_toNat_le.mp inPlace.2
      rw [if_pos inPlace, if_pos ⟨inPlace.1, Int.ofNat_le.mpr small⟩]
      refine ⟨_, rfl, mirrors.setQuantity valid member newQuantity ?_ ?_⟩
      · intro side
        rw [← mirrors.level_getD]
        cases order.side <;> cases side <;> rfl
      · cases order.side <;> rfl
    · have apart : ¬ (newPrice = order.price ∧
          (newQuantity.toNat : Int) ≤ order.quantity.toNat) := by
        rintro ⟨same, small⟩
        exact inPlace ⟨same, UInt32.le_iff_toNat_le.mpr (Int.ofNat_le.mp small)⟩
      rw [if_neg inPlace, if_neg apart]
      exact removed.addLimit (valid.remove order.id) fresh order.side newPrice newQuantity .gtc

end Change

end Qsl.Oracle
