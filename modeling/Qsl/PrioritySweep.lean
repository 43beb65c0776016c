import Qsl.Types
import Mathlib.Data.List.Sort
import Mathlib.Data.UInt

/- Price-time priority stated on plain lists: each side is the list of its
resting orders, best price first and oldest first within a price. -/
namespace Qsl

open List

/-- What stays fixed while an incoming order walks the opposite side. -/
structure Taker where
  id : OrderId
  side : Side
  limit : Price
  isMarket : Bool
  deriving DecidableEq, Repr

def Taker.crosses (taker : Taker) (price : Price) : Bool :=
  canMatchLevel (taker.side == .buy) taker.isMarket taker.limit price

/-- Outcome of a walk: the trades in order, the makers it exhausted, the
quantity still unfilled and the orders left on the side. -/
structure Sweep where
  trades : List Trade
  filled : List OrderId
  remaining : Quantity
  left : List Order
  deriving DecidableEq, Repr

/-- Trade with each order in turn until the taker is filled, the side is empty
or the price no longer crosses. -/
def sweep (taker : Taker) : List Order → Quantity → Sweep
  | [], quantity => ⟨[], [], quantity, []⟩
  | maker :: rest, quantity =>
    if quantity = 0 ∨ taker.crosses maker.price = false then ⟨[], [], quantity, maker :: rest⟩
    else
      let traded := min quantity maker.quantity
      let trade : Trade := ⟨taker.id, maker.id, maker.price, traded⟩
      if maker.quantity - traded = 0 then
        let next := sweep taker rest (quantity - traded)
        ⟨trade :: next.trades, maker.id :: next.filled, next.remaining, next.left⟩
      else
        ⟨[trade], [], quantity - traded,
          { maker with quantity := maker.quantity - traded } :: rest⟩

section Sweep

variable (taker : Taker)

@[simp] theorem sweep_nil (quantity : Quantity) :
    sweep taker [] quantity = ⟨[], [], quantity, []⟩ := rfl

theorem sweep_stop {maker : Order} {rest : List Order} {quantity : Quantity}
    (stopped : quantity = 0 ∨ taker.crosses maker.price = false) :
    sweep taker (maker :: rest) quantity = ⟨[], [], quantity, maker :: rest⟩ := by
  rw [sweep, if_pos stopped]

theorem sweep_zero (orders : List Order) :
    sweep taker orders 0 = ⟨[], [], 0, orders⟩ := by
  cases orders with
  | nil => rfl
  | cons maker rest => exact sweep_stop taker (Or.inl rfl)

section

variable {maker : Order} {rest : List Order} {quantity : Quantity} (positive : quantity ≠ 0)
  (crossing : taker.crosses maker.price = true)

include positive crossing

theorem sweep_exhaust (exhausted : maker.quantity - min quantity maker.quantity = 0) :
    sweep taker (maker :: rest) quantity =
      let traded := min quantity maker.quantity
      let next := sweep taker rest (quantity - traded)
      ⟨⟨taker.id, maker.id, maker.price, traded⟩ :: next.trades, maker.id :: next.filled,
        next.remaining, next.left⟩ := by
  rw [sweep, if_neg (by simp [positive, crossing])]
  simp only [exhausted, if_true]

theorem sweep_survive (survives : maker.quantity - min quantity maker.quantity ≠ 0) :
    sweep taker (maker :: rest) quantity =
      let traded := min quantity maker.quantity
      ⟨[⟨taker.id, maker.id, maker.price, traded⟩], [], quantity - traded,
        { maker with quantity := maker.quantity - traded } :: rest⟩ := by
  rw [sweep, if_neg (by simp [positive, crossing])]
  simp only [survives, if_false]

end

/-- One trade of a walk, whether or not it uses the maker up: the walk goes on with
what is left of the quantity. -/
theorem sweep_cons {maker : Order} (rest : List Order) {quantity : Quantity}
    (positive : quantity ≠ 0) (crossing : taker.crosses maker.price = true) :
    let traded := min quantity maker.quantity
    let next := sweep taker rest (quantity - traded)
    (sweep taker (maker :: rest) quantity).trades =
        ⟨taker.id, maker.id, maker.price, traded⟩ :: next.trades ∧
      (sweep taker (maker :: rest) quantity).filled =
        (if maker.quantity - traded = 0 then maker.id :: next.filled else next.filled) ∧
      (sweep taker (maker :: rest) quantity).remaining = next.remaining := by
  by_cases exhausted : maker.quantity - min quantity maker.quantity = 0
  · rw [sweep_exhaust taker positive crossing exhausted]
    simp only [exhausted, if_true, and_self]
  · rw [sweep_survive taker positive crossing exhausted]
    -- a maker that survives has filled the taker
    rcases fill_cases quantity maker.quantity with ⟨_, _, used⟩ | ⟨_, _, done, _⟩
    · exact absurd used exhausted
    · simp only [done, sweep_zero, exhausted, if_false, and_self]

/-- A walk over a joined list continues into the second part only when the
first part is used up. -/
theorem sweep_append (front back : List Order) (quantity : Quantity) :
    sweep taker (front ++ back) quantity =
      let first := sweep taker front quantity
      if first.left = [] then
        let second := sweep taker back first.remaining
        ⟨first.trades ++ second.trades, first.filled ++ second.filled, second.remaining,
          second.left⟩
      else ⟨first.trades, first.filled, first.remaining, first.left ++ back⟩ := by
  fun_induction sweep taker front quantity with
  | case1 => simp
  | case2 maker rest quantity stopped => simp [sweep_stop taker stopped]
  | case3 maker rest quantity running traded trade exhausted next ih =>
    rw [not_or, Bool.not_eq_false] at running
    rw [cons_append, sweep_exhaust taker running.1 running.2 exhausted]
    simp only [traded] at ih
    simp only [ih]
    split <;> rfl
  | case4 maker rest quantity running traded trade survives =>
    rw [not_or, Bool.not_eq_false] at running
    rw [cons_append, sweep_survive taker running.1 running.2 survives]
    simp [trade, traded]

end Sweep

/-- Identity, side and price: what a fill never changes about a resting order. -/
def Order.tag (order : Order) : OrderId × Side × Price := (order.id, order.side, order.price)

theorem sweep_tags (taker : Taker) (orders : List Order) (quantity : Quantity) :
    ∃ used : List Order, used.map Order.id = (sweep taker orders quantity).filled ∧
      orders.map Order.tag =
        used.map Order.tag ++ (sweep taker orders quantity).left.map Order.tag := by
  fun_induction sweep taker orders quantity with
  | case1 => exact ⟨[], rfl, rfl⟩
  | case2 => exact ⟨[], rfl, rfl⟩
  | case3 maker rest quantity running traded trade exhausted next ih =>
    obtain ⟨used, ids, tags⟩ := ih
    exact ⟨maker :: used, by simp [ids, next], by simp [tags, next]⟩
  | case4 => exact ⟨[], rfl, rfl⟩

theorem sweep_left_positive (taker : Taker) {orders : List Order} {quantity : Quantity}
    (positive : ∀ order ∈ orders, 0 < order.quantity) :
    ∀ order ∈ (sweep taker orders quantity).left, 0 < order.quantity := by
  fun_induction sweep taker orders quantity with
  | case1 => exact positive
  | case2 => exact positive
  | case3 maker rest quantity running traded trade exhausted next ih =>
    exact ih (fun order member => positive order (mem_cons_of_mem _ member))
  | case4 maker rest quantity running traded trade survives =>
    intro order member
    rcases mem_cons.mp member with rfl | later
    · exact (quantity_pos _).mpr survives
    · exact positive order (mem_cons_of_mem _ later)

/-- An unfilled taker has met the end of the side or a price it does not accept. -/
theorem sweep_remaining (taker : Taker) (orders : List Order) (quantity : Quantity)
    (unfilled : (sweep taker orders quantity).remaining ≠ 0) :
    ∀ maker, (sweep taker orders quantity).left.head? = some maker →
      taker.crosses maker.price = false := by
  fun_induction sweep taker orders quantity with
  | case1 => intro maker found; cases found
  | case2 first rest quantity stopped =>
    rintro maker found
    cases found
    exact stopped.resolve_left unfilled
  | case3 first rest quantity running traded trade exhausted next ih => exact ih unfilled
  | case4 first rest quantity running traded trade survives =>
    rcases fill_cases quantity first.quantity with ⟨_, _, used⟩ | ⟨_, _, filled, _⟩
    · exact absurd used survives
    · exact absurd filled unfilled

/-- A level of crossing prices is left over only when the taker is filled. -/
theorem sweep_level_left {taker : Taker} {orders : List Order} {quantity : Quantity} {price : Price}
    (crossing : taker.crosses price = true) (filed : ∀ order ∈ orders, order.price = price)
    (remains : (sweep taker orders quantity).left ≠ []) :
    (sweep taker orders quantity).remaining = 0 := by
  by_contra unfilled
  obtain ⟨maker, found⟩ := exists_mem_of_ne_nil _ remains
  cases shape : (sweep taker orders quantity).left with
  | nil => exact remains shape
  | cons first rest =>
    have stop := sweep_remaining taker orders quantity unfilled first (by rw [shape]; rfl)
    obtain ⟨used, _, tags⟩ := sweep_tags taker orders quantity
    have inside : first.tag ∈ orders.map Order.tag := by
      rw [tags, shape]
      exact mem_append_right _ mem_cons_self
    obtain ⟨source, member, same⟩ := mem_map.mp inside
    have prices : source.price = first.price := congrArg (fun tag => tag.2.2) same
    rw [← prices, filed source member, crossing] at stop
    cases stop

section

variable {taker : Taker} {orders : List Order} {price : Price}
  (crossing : taker.crosses price = true) (filed : ∀ order ∈ orders, order.price = price)
  (others : List Order) (quantity : Quantity)

include crossing filed others quantity

/-- Walking a level and then the rest of the side with what remains is walking
the whole side: a level is left over only by a filled taker. -/
theorem sweep_level_append :
    let first := sweep taker orders quantity
    let second := sweep taker others first.remaining
    let whole := sweep taker (orders ++ others) quantity
    whole.trades = first.trades ++ second.trades ∧ whole.filled = first.filled ++ second.filled ∧
      whole.remaining = second.remaining := by
  simp only [sweep_append]
  split
  · exact ⟨rfl, rfl, rfl⟩
  · rename_i remains
    rw [sweep_level_left crossing filed remains, sweep_zero]
    simp

/-- Walking a level, and then what is left of it with the rest of the side, is walking the
whole side. -/
theorem sweep_resume :
    sweep taker (orders ++ others) quantity =
      let first := sweep taker orders quantity
      let next := sweep taker (first.left ++ others) first.remaining
      ⟨first.trades ++ next.trades, first.filled ++ next.filled, next.remaining, next.left⟩ := by
  rw [sweep_append]
  by_cases used : (sweep taker orders quantity).left = []
  · simp only [used, if_true, nil_append]
  · simp only [used, if_false, sweep_level_left crossing filed used, sweep_zero, append_nil]

end

theorem crosses_false_iff {taker : Taker} (limited : taker.isMarket = false) (price : Price) :
    taker.crosses price = false ↔ Better taker.side.opposite taker.limit price := by
  rcases taker with ⟨id, side, limit, isMarket⟩
  simp only at limited
  subst limited
  cases side
  · simp [Taker.crosses, canMatchLevel, Side.opposite, Better, Int64.not_le]
  · simp [Taker.crosses, canMatchLevel, Side.opposite, Better, Int64.not_le]

end Qsl
