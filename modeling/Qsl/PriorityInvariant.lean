import Qsl.PriorityBook
import Qsl.Buckets

namespace Qsl.Book

open List

variable {quantity : Quantity} {id : OrderId}

theorem WellFormed.unique_side {book : Book} (valid : book.WellFormed) (side : Side) :
    ((book.side side).map Order.id).Nodup := (unique_iff.mp valid.unique).1 side

/-- Dropping orders and lowering quantities in place keeps a book well formed. -/
theorem WellFormed.shrink {book other : Book} (valid : book.WellFormed)
    (tags : ∀ side, ((other.side side).map Order.tag).Sublist ((book.side side).map Order.tag))
    (positive : ∀ side, ∀ order ∈ other.side side, 0 < order.quantity) : other.WellFormed := by
  have origin : ∀ side, ∀ order ∈ other.side side,
      ∃ source ∈ book.side side, source.tag = order.tag := by
    intro side order member
    obtain ⟨source, inside, same⟩ :=
      mem_map.mp ((tags side).subset (mem_map_of_mem member))
    exact ⟨source, inside, same⟩
  have ids : ∀ side, ((other.side side).map Order.id).Sublist ((book.side side).map Order.id) := by
    intro side
    have mapped := (tags side).map Prod.fst
    rwa [map_map, map_map] at mapped
  refine ⟨?_, positive, ?_, ?_, ?_⟩
  · intro side order member
    obtain ⟨source, inside, same⟩ := origin side order member
    have sides : source.side = order.side := congrArg (fun tag => tag.2.1) same
    exact sides ▸ valid.sided side source inside
  · intro side
    have sorted := valid.sorted side
    have onTags : ((book.side side).map Order.tag).Pairwise
        (fun a b => ¬ Better side b.2.2 a.2.2) := pairwise_map.mpr sorted
    exact pairwise_map.mp (onTags.sublist (tags side))
  · refine unique_iff.mpr ⟨fun side => (valid.unique_side side).sublist (ids side), ?_⟩
    intro bid inBids ask inAsks same
    have bidSource := (ids .buy).subset (mem_map_of_mem inBids)
    have askSource := (ids .sell).subset (mem_map_of_mem inAsks)
    obtain ⟨b, inB, sameB⟩ := mem_map.mp bidSource
    obtain ⟨a, inA, sameA⟩ := mem_map.mp askSource
    exact (unique_iff.mp valid.unique).2 b inB a inA (by rw [sameB, sameA, same])
  · intro bid inBids ask inAsks
    obtain ⟨b, inB, sameB⟩ := origin .buy bid inBids
    obtain ⟨a, inA, sameA⟩ := origin .sell ask inAsks
    have bidPrice : b.price = bid.price := congrArg (fun tag => tag.2.2) sameB
    have askPrice : a.price = ask.price := congrArg (fun tag => tag.2.2) sameA
    exact bidPrice ▸ askPrice ▸ valid.uncrossed b inB a inA

theorem sweep_left_tags (taker : Taker) (orders : List Order) (quantity : Quantity) :
    ((sweep taker orders quantity).left.map Order.tag).Sublist (orders.map Order.tag) := by
  obtain ⟨used, _, tags⟩ := sweep_tags taker orders quantity
  rw [tags]
  exact sublist_append_right _ _

theorem WellFormed.matched {book : Book} (valid : book.WellFormed) (taker : Taker)
    (quantity : Quantity) :
    (book.setSide taker.side.opposite (book.matchTaker taker quantity).left).WellFormed := by
  refine valid.shrink ?_ ?_
  · intro side
    rcases taker.side.eq_or_eq_opposite side with rfl | rfl
    · rw [setSide_other]
    · rw [setSide_same]
      exact sweep_left_tags taker _ quantity
  · intro side
    rcases taker.side.eq_or_eq_opposite side with rfl | rfl
    · rw [setSide_other]
      exact valid.positive _
    · rw [setSide_same]
      exact sweep_left_positive taker (valid.positive _)

/-- No order left behind by an unfilled limit order is at a price it accepts. -/
theorem WellFormed.unfilled_apart {book : Book} (valid : book.WellFormed) {taker : Taker}
    (limited : taker.isMarket = false) (unfilled : (book.matchTaker taker quantity).remaining ≠ 0) :
    ∀ other ∈ (book.matchTaker taker quantity).left,
      Better taker.side.opposite taker.limit other.price := by
  have sorted := (valid.matched taker quantity).sorted taker.side.opposite
  rw [setSide_same] at sorted
  have stop := sweep_remaining taker _ quantity unfilled
  change ∀ maker, (book.matchTaker taker quantity).left.head? = some maker → _ at stop
  intro other member
  cases shape : (book.matchTaker taker quantity).left with
  | nil => rw [shape] at member; cases member
  | cons first rest =>
    have apart := (crosses_false_iff limited first.price).mp (stop first (by rw [shape]; rfl))
    rw [shape] at member sorted
    rcases mem_cons.mp member with same | later
    · exact same ▸ apart
    · have order := (pairwise_cons.mp sorted).1 other later
      by_cases below : Better taker.side.opposite first.price other.price
      · exact IsTrans.trans _ _ _ apart below
      · exact OrderedMap.eq_of_not_lt below order ▸ apart

theorem mem_rest {book : Book} {order other : Order} {side : Side} :
    other ∈ (book.rest order).side side ↔
      (order.side = side ∧ other = order) ∨ other ∈ book.side side := by
  rw [rest]
  rcases order.side.eq_or_eq_opposite side with rfl | rfl
  · rw [setSide_same, mem_orderedInsert]
    simp
  · rw [setSide_opposite]
    simp [order.side.opposite_ne.symm]

theorem rest_perm (book : Book) (order : Order) :
    (book.rest order).restingOrders.Perm (order :: book.restingOrders) := by
  have inserted := fun side => perm_orderedInsert
    (fun a b : Order => Better side a.price b.price) order (book.side side)
  rcases order with ⟨id, side, price, quantity⟩
  cases side
  · exact (inserted .buy).append_right book.asks
  · exact ((inserted .sell).append_left book.bids).trans perm_middle

/-- Resting a fresh order that no opposite order reaches keeps the book well formed. -/
theorem WellFormed.rest {book : Book} (valid : book.WellFormed) {order : Order}
    (fresh : book.contains order.id = false) (positive : 0 < order.quantity)
    (apart : ∀ other ∈ book.side order.side.opposite,
      Better order.side.opposite order.price other.price) : (book.rest order).WellFormed := by
  refine ⟨?_, ?_, ?_, ?_, ?_⟩
  · intro side other member
    rcases mem_rest.mp member with ⟨same, rfl⟩ | old
    · exact same
    · exact valid.sided side other old
  · intro side other member
    rcases mem_rest.mp member with ⟨_, rfl⟩ | old
    · exact positive
    · exact valid.positive side other old
  · intro side
    rw [Book.rest]
    rcases order.side.eq_or_eq_opposite side with rfl | rfl
    · rw [setSide_same]
      exact Buckets.orderedInsert_sorted (valid.sorted _)
    · rw [setSide_opposite]
      exact valid.sorted _
  · refine ((rest_perm book order).map Order.id).nodup_iff.mpr (nodup_cons.mpr ⟨?_, valid.unique⟩)
    rw [← contains_iff, fresh]
    exact Bool.false_ne_true
  · refine uncrossed_iff.mpr ?_
    intro side own inOwn other inOther
    rcases mem_rest.mp inOwn with ⟨same, rfl⟩ | oldOwn
    · subst same
      rcases mem_rest.mp inOther with ⟨impossible, _⟩ | oldOther
      · exact absurd impossible.symm own.side.opposite_ne
      · exact apart other oldOther
    · rcases mem_rest.mp inOther with ⟨same, rfl⟩ | oldOther
      · have reached := apart own (by rw [same, Side.opposite_opposite]; exact oldOwn)
        rw [same, Side.opposite_opposite] at reached
        cases side <;> exact reached
      · exact uncrossed_iff.mp valid.uncrossed side own oldOwn other oldOther

/-- A match takes the ids of the makers it uses up out of the book, and no other. -/
theorem matched_ids (book : Book) (taker : Taker) (quantity : Quantity) :
    let swept := book.matchTaker taker quantity
    (book.restingOrders.map Order.id).Perm
      (swept.filled ++
        (book.setSide taker.side.opposite swept.left).restingOrders.map Order.id) := by
  have walked : (book.side taker.side.opposite).map Order.id =
      (book.matchTaker taker quantity).filled ++
        (book.matchTaker taker quantity).left.map Order.id := by
    obtain ⟨used, ids, tags⟩ := sweep_tags taker (book.side taker.side.opposite) quantity
    have mapped := congrArg (List.map Prod.fst) tags
    simp only [map_append, map_map] at mapped
    rw [matchTaker, ← ids]
    exact mapped
  simp only [restingOrders, map_append]
  rcases taker with ⟨id, side, limit, isMarket⟩
  cases side
  · have asks : book.asks.map Order.id = _ := walked
    rw [asks]
    exact perm_append_comm_assoc _ _ _
  · have bids : book.bids.map Order.id = _ := walked
    rw [bids, append_assoc]
    exact List.Perm.refl _

theorem matched_length (book : Book) (taker : Taker) (quantity : Quantity) :
    let swept := book.matchTaker taker quantity
    (book.setSide taker.side.opposite swept.left).restingOrders.length + swept.filled.length =
      book.restingOrders.length := by
  have lengths := (book.matched_ids taker quantity).length_eq
  simp only [length_append, length_map] at lengths
  simp only [lengths, Nat.add_comm]

/-- A match uses up no maker exactly when every resting order still rests after it. -/
theorem WellFormed.filled_nil_iff {book : Book} (valid : book.WellFormed) (taker : Taker)
    (quantity : Quantity) :
    let swept := book.matchTaker taker quantity
    swept.filled = [] ↔ ∀ order ∈ book.restingOrders,
      (book.setSide taker.side.opposite swept.left).contains order.id = true := by
  have ids := book.matched_ids taker quantity
  simp only [contains_iff] at ids ⊢
  constructor
  · intro none order member
    rw [none, nil_append] at ids
    exact ids.mem_iff.mp (mem_map_of_mem member)
  · intro kept
    apply eq_nil_iff_forall_not_mem.mpr
    intro id used
    have distinct := ids.nodup_iff.mp valid.unique
    obtain ⟨order, member, rfl⟩ := mem_map.mp (ids.mem_iff.mpr (mem_append_left _ used))
    exact (nodup_append.mp distinct).2.2 _ used _ (kept order member) rfl

theorem matched_fresh {book : Book} (fresh : book.contains id = false) (taker : Taker)
    (quantity : Quantity) :
    (book.setSide taker.side.opposite (book.matchTaker taker quantity).left).contains id = false := by
  rw [contains_false_iff] at fresh ⊢
  intro side order member
  rcases taker.side.eq_or_eq_opposite side with rfl | rfl
  · rw [setSide_other] at member
    exact fresh _ order member
  · rw [setSide_same] at member
    have tags := (sweep_left_tags taker _ quantity).subset (mem_map_of_mem member)
    obtain ⟨source, inside, same⟩ := mem_map.mp tags
    have ids : source.id = order.id := congrArg Prod.fst same
    exact ids ▸ fresh _ source inside

/-- What is left of an incoming limit order can rest: its id is new, its quantity
positive and its price short of the other side. -/
theorem WellFormed.remainder {book : Book} (valid : book.WellFormed) {side : Side} {price : Price}
    (fresh : book.contains id = false)
    (unfilled : (book.matchTaker ⟨id, side, price, false⟩ quantity).remaining ≠ 0) :
    let swept := book.matchTaker ⟨id, side, price, false⟩ quantity
    let crossed := book.setSide side.opposite swept.left
    crossed.contains id = false ∧ 0 < swept.remaining ∧
      ∀ other ∈ crossed.side side.opposite, Better side.opposite price other.price := by
  have apart := valid.unfilled_apart rfl unfilled
  refine ⟨matched_fresh fresh ⟨id, side, price, false⟩ quantity, (quantity_pos _).mpr unfilled, ?_⟩
  simp only [setSide_same]
  exact apart

theorem WellFormed.addLimit {book : Book} (valid : book.WellFormed) (id : OrderId) (side : Side)
    (price : Price) (quantity : Quantity) (tif : TimeInForce) :
    (book.addLimit id side price quantity tif).1.WellFormed := by
  have matched := valid.matched ⟨id, side, price, false⟩ quantity
  rw [Book.addLimit]
  split
  · exact valid
  · rename_i absent
    have fresh : book.contains id = false := by simpa using absent
    dsimp only
    split
    · rename_i rests
      obtain ⟨unused, positive, apart⟩ := valid.remainder fresh rests.1
      exact matched.rest unused positive apart
    · exact matched

theorem WellFormed.addMarket {book : Book} (valid : book.WellFormed) (id : OrderId) (side : Side)
    (quantity : Quantity) : (book.addMarket id side quantity).1.WellFormed := by
  rw [Book.addMarket]
  split
  · exact valid
  · exact valid.matched ⟨id, side, 0, true⟩ quantity

theorem remove_side (book : Book) (id : OrderId) (side : Side) :
    (book.remove id).side side = (book.side side).filter (fun order => order.id ≠ id) := by
  cases side <;> rfl

theorem WellFormed.remove {book : Book} (valid : book.WellFormed) (id : OrderId) :
    (book.remove id).WellFormed := by
  refine valid.shrink ?_ ?_
  · intro side
    rw [remove_side]
    exact filter_sublist.map _
  · intro side order member
    rw [remove_side] at member
    exact valid.positive side order (mem_filter.mp member).1

theorem WellFormed.cancel {book : Book} (valid : book.WellFormed) (id : OrderId) :
    (book.cancel id).1.WellFormed := by
  rw [Book.cancel]
  split
  · exact valid.remove id
  · exact valid

theorem reduce_tag (id : OrderId) (quantity : Quantity) (order : Order) :
    (reduce id quantity order).tag = order.tag := by
  rw [reduce]
  split <;> rfl

theorem setQuantity_side (book : Book) (id : OrderId) (quantity : Quantity) (side : Side) :
    (book.setQuantity id quantity).side side = (book.side side).map (reduce id quantity) := by
  cases side <;> rfl

theorem WellFormed.setQuantity {book : Book} (valid : book.WellFormed) (id : OrderId)
    (positive : 0 < quantity) : (book.setQuantity id quantity).WellFormed := by
  apply valid.shrink
  · intro side
    have tags : Order.tag ∘ reduce id quantity = Order.tag := funext (reduce_tag id quantity)
    rw [setQuantity_side, map_map, tags]
  · intro side order member
    rw [setQuantity_side] at member
    obtain ⟨source, inside, rfl⟩ := mem_map.mp member
    rw [reduce]
    split
    · exact positive
    · exact valid.positive side source inside

theorem WellFormed.modify {book : Book} (valid : book.WellFormed) (id : OrderId)
    (newPrice : Price) (newQuantity : Quantity) :
    (book.modify id newPrice newQuantity).1.WellFormed := by
  rw [Book.modify]
  split
  · exact valid
  · split
    · exact valid.remove id
    · rename_i positive
      split
      · exact valid.setQuantity id ((quantity_pos _).mpr positive)
      · exact (valid.remove id).addLimit _ _ _ _ _

section Place

variable {book : Book} {side : Side} {front back : List Order} {order : Order}

theorem filter_absent {orders : List Order} (absent : ∀ other ∈ orders, other.id ≠ id) :
    orders.filter (fun other => other.id ≠ id) = orders := by
  apply filter_eq_self.mpr
  intro other member
  simpa using absent other member

theorem reduce_absent {orders : List Order} (quantity : Quantity)
    (absent : ∀ other ∈ orders, other.id ≠ id) : orders.map (reduce id quantity) = orders := by
  have same : ∀ other ∈ orders, reduce id quantity other = other := by
    intro other member
    rw [reduce, if_neg (absent other member)]
  exact (map_congr_left same).trans (map_id _)

/-- Without orders of that id on the other side, a removal is a change of one side. -/
theorem remove_eq_setSide (elsewhere : ∀ other ∈ book.side side.opposite, other.id ≠ id) :
    book.remove id = book.setSide side ((book.side side).filter (fun other => other.id ≠ id)) := by
  apply eq_of_side
  intro other
  rw [remove_side]
  rcases side.eq_or_eq_opposite other with rfl | rfl
  · rw [setSide_same]
  · rw [setSide_opposite, filter_absent elsewhere]

theorem setQuantity_eq_setSide (quantity : Quantity)
    (elsewhere : ∀ other ∈ book.side side.opposite, other.id ≠ id) :
    book.setQuantity id quantity =
      book.setSide side ((book.side side).map (reduce id quantity)) := by
  apply eq_of_side
  intro other
  rw [setQuantity_side]
  rcases side.eq_or_eq_opposite other with rfl | rfl
  · rw [setSide_same]
  · rw [setSide_opposite, reduce_absent quantity elsewhere]

/-- The two sides share no id. -/
theorem WellFormed.sides_apart (valid : book.WellFormed) {other : Order}
    (inside : order ∈ book.side side) (across : other ∈ book.side side.opposite) :
    other.id ≠ order.id := by
  have apart := (unique_iff.mp valid.unique).2
  cases side
  · exact (apart order inside other across).symm
  · exact apart other across order inside

section

variable (valid : book.WellFormed) (shape : book.side side = front ++ order :: back)

include valid shape

/-- Around one order of a side, no other order has its id. -/
theorem WellFormed.alone :
    (∀ other ∈ front, other.id ≠ order.id) ∧ (∀ other ∈ back, other.id ≠ order.id) ∧
      ∀ other ∈ book.side side.opposite, other.id ≠ order.id := by
  have own := valid.unique_side side
  rw [shape, map_append, map_cons, nodup_append] at own
  obtain ⟨_, tail, apart⟩ := own
  have inside : order ∈ book.side side := by
    rw [shape]
    exact mem_append_right _ mem_cons_self
  refine ⟨?_, ?_, fun _ across => valid.sides_apart inside across⟩
  · intro other member
    exact apart _ (mem_map_of_mem member) _ mem_cons_self
  · intro other member same
    exact (nodup_cons.mp tail).1 (mem_map.mpr ⟨other, member, same⟩)

theorem WellFormed.remove_place : book.remove order.id = book.setSide side (front ++ back) := by
  obtain ⟨inFront, inBack, elsewhere⟩ := valid.alone shape
  rw [remove_eq_setSide elsewhere, shape, filter_append, filter_cons_of_neg (by simp),
    filter_absent inFront, filter_absent inBack]

theorem WellFormed.setQuantity_place (quantity : Quantity) :
    book.setQuantity order.id quantity =
      book.setSide side (front ++ { order with quantity := quantity } :: back) := by
  obtain ⟨inFront, inBack, elsewhere⟩ := valid.alone shape
  rw [setQuantity_eq_setSide quantity elsewhere, shape, map_append, map_cons,
    reduce_absent quantity inFront, reduce_absent quantity inBack, reduce, if_pos rfl]

end

/-- Removing an order leaves the other side alone. -/
theorem WellFormed.remove_opposite (valid : book.WellFormed) (found : book.find? id = some order) :
    (book.remove id).side order.side.opposite = book.side order.side.opposite ∧
      (book.remove id).contains id = false := by
  obtain ⟨member, rfl⟩ := (find?_eq_some valid.unique).mp found
  obtain ⟨side, inside⟩ := mem_restingOrders.mp member
  have sided := valid.sided side order inside
  obtain ⟨front, back, shape⟩ := append_of_mem inside
  refine ⟨?_, ?_⟩
  · rw [sided, valid.remove_place shape, setSide_opposite]
  · apply contains_false_iff.mpr
    intro other order' removed
    rw [remove_side] at removed
    simpa using (mem_filter.mp removed).2

end Place

end Qsl.Book
