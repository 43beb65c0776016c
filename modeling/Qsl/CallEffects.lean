import Qsl.MarketInvariant

namespace Qsl

open List

variable {id : OrderId}

namespace BookOp

/-- The quantity a call submits. -/
def submitted : BookOp → Quantity
  | .addLimit _ _ _ quantity _ => quantity
  | .addMarket _ _ quantity => quantity
  | .cancel _ => 0
  | .modify _ _ newQuantity => newQuantity

/-- The price at which a call may leave its order. -/
def price? : BookOp → Option Price
  | .addLimit _ _ price _ _ => some price
  | .modify _ newPrice _ => some newPrice
  | _ => none

end BookOp

/-- A fill takes no more than either side has. -/
theorem fill_covered (taker maker : Quantity) :
    (min taker maker).toNat ≤ taker.toNat ∧ (min taker maker).toNat ≤ maker.toNat ∧
      (taker - min taker maker).toNat = taker.toNat - (min taker maker).toNat ∧
      (maker - min taker maker).toNat = maker.toNat - (min taker maker).toNat := by
  have covered : min taker maker ≤ taker ∧ min taker maker ≤ maker := by
    rw [quantity_min]
    split
    · rename_i below
      exact ⟨UInt32.le_refl _, below⟩
    · rename_i above
      exact ⟨UInt32.le_of_lt (UInt32.not_le.mp above), UInt32.le_refl _⟩
  exact ⟨UInt32.le_iff_toNat_le.mp covered.1, UInt32.le_iff_toNat_le.mp covered.2,
    UInt32.toNat_sub_of_le _ _ covered.1, UInt32.toNat_sub_of_le _ _ covered.2⟩

section Sweep

variable (taker : Taker)

/-- Every trade is the taker's, with a maker of the side at the maker's price. -/
theorem sweep_trades {orders : List Order} (positive : ∀ order ∈ orders, 0 < order.quantity)
    (quantity : Quantity) :
    ∀ trade ∈ (sweep taker orders quantity).trades,
      trade.takerId = taker.id ∧ 0 < trade.quantity ∧
        ∃ maker ∈ orders, maker.id = trade.makerId ∧ maker.price = trade.price := by
  induction orders generalizing quantity with
  | nil =>
    intro trade member
    cases member
  | cons maker rest ih =>
    intro trade member
    by_cases stopped : quantity = 0 ∨ taker.crosses maker.price = false
    · rw [sweep_stop taker stopped] at member
      cases member
    · rw [not_or, Bool.not_eq_false] at stopped
      rw [(sweep_cons taker rest stopped.1 stopped.2).1] at member
      rcases mem_cons.mp member with rfl | later
      · have alive := positive maker mem_cons_self
        have traded : 0 < min quantity maker.quantity := by
          rcases fill_cases quantity maker.quantity with ⟨_, same, _⟩ | ⟨_, same, _, _⟩
          · rw [same]
            exact alive
          · rw [same]
            exact (quantity_pos quantity).mpr stopped.1
        exact ⟨rfl, traded, maker, mem_cons_self, rfl, rfl⟩
      · obtain ⟨own, traded, other, inside, same⟩ :=
          ih (fun order member => positive order (mem_cons_of_mem _ member)) _ trade later
        exact ⟨own, traded, other, mem_cons_of_mem _ inside, same⟩

/-- What is left of a side was there, with no less quantity. -/
theorem sweep_left_source (orders : List Order) (quantity : Quantity) :
    ∀ order ∈ (sweep taker orders quantity).left,
      ∃ source ∈ orders, source.tag = order.tag ∧ order.quantity ≤ source.quantity := by
  fun_induction sweep taker orders quantity with
  | case1 =>
    intro order member
    cases member
  | case2 => exact fun order member => ⟨order, member, rfl, UInt32.le_refl _⟩
  | case3 maker rest quantity running traded trade exhausted next ih =>
    intro order member
    obtain ⟨source, inside, same⟩ := ih order member
    exact ⟨source, mem_cons_of_mem _ inside, same⟩
  | case4 maker rest quantity running traded trade survives =>
    intro order member
    rcases mem_cons.mp member with rfl | later
    · refine ⟨maker, mem_cons_self, rfl, ?_⟩
      show maker.quantity - min quantity maker.quantity ≤ maker.quantity
      have filled := fill_covered quantity maker.quantity
      rw [UInt32.le_iff_toNat_le]
      omega
    · exact ⟨order, mem_cons_of_mem _ later, rfl, UInt32.le_refl _⟩

theorem sweep_remaining_le (orders : List Order) (quantity : Quantity) :
    (sweep taker orders quantity).remaining ≤ quantity := by
  induction orders generalizing quantity with
  | nil => exact UInt32.le_refl _
  | cons maker rest ih =>
    by_cases stopped : quantity = 0 ∨ taker.crosses maker.price = false
    · rw [sweep_stop taker stopped]
      exact UInt32.le_refl _
    · rw [not_or, Bool.not_eq_false] at stopped
      rw [(sweep_cons taker rest stopped.1 stopped.2).2.2]
      refine UInt32.le_trans (ih _) ?_
      have filled := fill_covered quantity maker.quantity
      rw [UInt32.le_iff_toNat_le]
      omega

end Sweep

namespace Book

variable {book : Book}

/-- An incoming order on a book that does not hold it: match, then rest what remains if the
order may rest. -/
def take (book : Book) (taker : Taker) (quantity : Quantity) (rests : Bool) : Book × List Trade :=
  let swept := book.matchTaker taker quantity
  let crossed := book.setSide taker.side.opposite swept.left
  if swept.remaining ≠ 0 ∧ rests then
    (crossed.rest ⟨taker.id, taker.side, taker.limit, swept.remaining⟩, swept.trades)
  else (crossed, swept.trades)

theorem take_trades (book : Book) (taker : Taker) (quantity : Quantity) (rests : Bool) :
    (book.take taker quantity rests).2 = (book.matchTaker taker quantity).trades := by
  rw [take]
  split <;> rfl

/-- What stands behind an incoming order: its remainder, its own side, and what it left of the
other. -/
theorem mem_take {taker : Taker} {quantity : Quantity} {rests : Bool} {order : Order} {side : Side}
    (member : order ∈ (book.take taker quantity rests).1.side side) :
    (rests = true ∧
        order = ⟨taker.id, taker.side, taker.limit, (book.matchTaker taker quantity).remaining⟩) ∨
      order ∈ book.side taker.side ∨ order ∈ (book.matchTaker taker quantity).left := by
  have crossed : order ∈ (book.setSide taker.side.opposite
      (book.matchTaker taker quantity).left).side side →
      order ∈ book.side taker.side ∨ order ∈ (book.matchTaker taker quantity).left := by
    intro inside
    rcases taker.side.eq_or_eq_opposite side with rfl | rfl
    · rw [setSide_other] at inside
      exact Or.inl inside
    · rw [setSide_same] at inside
      exact Or.inr inside
  rw [take] at member
  split at member
  · rename_i unfilled
    rcases mem_rest.mp member with ⟨_, rfl⟩ | old
    · exact Or.inl ⟨unfilled.2, rfl⟩
    · exact Or.inr (crossed old)
  · exact Or.inr (crossed member)

theorem addLimit_fresh (fresh : book.contains id = false) (side : Side) (price : Price)
    (quantity : Quantity) (tif : TimeInForce) :
    book.addLimit id side price quantity tif =
      book.take ⟨id, side, price, false⟩ quantity (tif = .gtc) := by
  rw [addLimit, if_neg (by simp [fresh]), take]
  simp only [decide_eq_true_eq]

theorem addMarket_fresh (fresh : book.contains id = false) (side : Side) (quantity : Quantity) :
    book.addMarket id side quantity = book.take ⟨id, side, 0, true⟩ quantity false := by
  rw [addMarket, if_neg (by simp [fresh]), take, if_neg (by simp)]

theorem mem_remove {order : Order} {side : Side} :
    order ∈ (book.remove id).side side ↔ order ∈ book.side side ∧ order.id ≠ id := by
  rw [remove_side, mem_filter, decide_eq_true_iff]

theorem remove_absent (book : Book) (id : OrderId) : (book.remove id).contains id = false := by
  rw [contains_false_iff]
  intro side order member
  exact (mem_remove.mp member).2

theorem remove_fresh (fresh : book.contains id = false) : book.remove id = book := by
  apply eq_of_side
  intro side
  rw [remove_side, filter_eq_self]
  intro order member
  exact decide_eq_true (contains_false_iff.mp fresh side order member)

/-- Everything an admitted call can do: take its order out, lower it in place, or take it out
and bring it in again. -/
inductive Effect (book : Book) (op : BookOp) : Book → List Trade → Prop
  | removed (nothing : op.submitted = 0) : Effect book op (book.remove op.id) []
  | lowered (order : Order) (found : book.find? op.id = some order)
      (priced : op.price? = some order.price) (positive : 0 < op.submitted)
      (covered : op.submitted ≤ order.quantity) :
      Effect book op (book.setQuantity op.id op.submitted) []
  | taken (taker : Taker) (rests : Bool) (own : taker.id = op.id)
      (limited : rests = true → taker.isMarket = false ∧ op.price? = some taker.limit) :
      Effect book op ((book.remove op.id).take taker op.submitted rests).1
        ((book.remove op.id).take taker op.submitted rests).2

theorem effect {op : BookOp} (admitted : book.admits op = true) :
    Effect book op (book.apply op).1 (book.apply op).2.trades := by
  cases op with
  | addLimit id side price quantity tif =>
    have fresh : book.contains id = false := by simpa [admits] using admitted
    have taken : Effect book (.addLimit id side price quantity tif) _ _ :=
      .taken ⟨id, side, price, false⟩ (tif = .gtc) rfl (fun _ => ⟨rfl, rfl⟩)
    simp only [BookOp.id, BookOp.submitted, remove_fresh fresh] at taken
    simp only [apply, addLimit_fresh fresh, BookReply.trades]
    exact taken
  | addMarket id side quantity =>
    have fresh : book.contains id = false := by simpa [admits] using admitted
    have taken : Effect book (.addMarket id side quantity) _ _ :=
      .taken ⟨id, side, 0, true⟩ false rfl (fun rests => by cases rests)
    simp only [BookOp.id, BookOp.submitted, remove_fresh fresh] at taken
    simp only [apply, addMarket_fresh fresh, BookReply.trades]
    exact taken
  | cancel id =>
    have known : book.contains id = true := admitted
    simp only [apply, Book.cancel, known, if_true, BookReply.trades]
    exact Effect.removed rfl
  | modify id newPrice newQuantity =>
    have known : book.contains id = true := admitted
    simp only [apply, BookReply.trades]
    rw [modify]
    cases found : book.find? id with
    | none =>
      rw [find?_eq_none.mp found] at known
      cases known
    | some order =>
      simp only
      split
      · rename_i zero
        subst zero
        exact Effect.removed rfl
      · rename_i positive
        split
        · rename_i lower
          obtain ⟨rfl, covered⟩ := lower
          exact Effect.lowered order found rfl ((quantity_pos _).mpr positive) covered
        · rw [addLimit_fresh (book.remove_absent id)]
          have taken : Effect book (.modify id newPrice newQuantity) _ _ :=
            .taken ⟨id, order.side, newPrice, false⟩ (TimeInForce.gtc = .gtc) rfl
              (fun _ => ⟨rfl, rfl⟩)
          exact taken

section Outcome

variable {op : BookOp}

/-- Every trade of a call is with an order that rested before it, at that order's price. -/
theorem WellFormed.apply_trades (valid : book.WellFormed) (admitted : book.admits op = true) :
    ∀ trade ∈ (book.apply op).2.trades,
      trade.takerId = op.id ∧ trade.makerId ≠ op.id ∧ 0 < trade.quantity ∧
        ∃ maker ∈ book.restingOrders, maker.id = trade.makerId ∧ maker.price = trade.price := by
  have effect := effect admitted
  generalize (book.apply op).1 = after at effect
  generalize (book.apply op).2.trades = trades at effect
  intro trade member
  cases effect with
  | taken taker rests own limited =>
    rw [take_trades] at member
    obtain ⟨owned, traded, maker, inside, same, priced⟩ :=
      sweep_trades taker ((valid.remove op.id).positive _) op.submitted trade member
    obtain ⟨resting, other⟩ := mem_remove.mp inside
    refine ⟨owned.trans own, ?_, traded, maker, mem_restingOrders.mpr ⟨_, resting⟩, same, priced⟩
    rw [← same]
    exact other
  | _ => cases member

/-- Every order behind a call rested before it, or is the one the call submitted. -/
theorem WellFormed.apply_source (valid : book.WellFormed) (admitted : book.admits op = true) :
    ∀ order ∈ (book.apply op).1.restingOrders,
      (order.id ≠ op.id ∧ ∃ source ∈ book.restingOrders,
          source.tag = order.tag ∧ order.quantity ≤ source.quantity) ∨
        (order.id = op.id ∧ op.price? = some order.price ∧ order.quantity ≤ op.submitted) := by
  have effect := effect admitted
  generalize (book.apply op).1 = after at effect
  generalize (book.apply op).2.trades = trades at effect
  intro order member
  obtain ⟨side, inside⟩ := mem_restingOrders.mp member
  cases effect with
  | removed nothing =>
    obtain ⟨resting, other⟩ := mem_remove.mp inside
    exact Or.inl ⟨other, order, mem_restingOrders.mpr ⟨side, resting⟩, rfl, UInt32.le_refl _⟩
  | lowered source found priced positive covered =>
    rw [setQuantity_side, mem_map] at inside
    obtain ⟨old, resting, rfl⟩ := inside
    have rested := mem_restingOrders.mpr ⟨side, resting⟩
    by_cases same : old.id = op.id
    · obtain rfl : source = old := by
        have again := (find?_eq_some valid.unique).mpr ⟨rested, same⟩
        rw [found] at again
        exact Option.some.inj again
      rw [reduce, if_pos same]
      exact Or.inr ⟨same, priced, UInt32.le_refl _⟩
    · rw [reduce, if_neg same]
      exact Or.inl ⟨same, old, rested, rfl, UInt32.le_refl _⟩
  | taken taker rests own limited =>
    rcases mem_take inside with ⟨may, rfl⟩ | same | left
    · exact Or.inr ⟨own, (limited may).2, sweep_remaining_le taker _ _⟩
    · obtain ⟨resting, other⟩ := mem_remove.mp same
      exact Or.inl ⟨other, order, mem_restingOrders.mpr ⟨_, resting⟩, rfl, UInt32.le_refl _⟩
    · obtain ⟨source, among, tags, less⟩ := sweep_left_source taker _ _ order left
      obtain ⟨resting, other⟩ := mem_remove.mp among
      have ids : source.id = order.id := congrArg Prod.fst tags
      exact Or.inl ⟨ids ▸ other, source, mem_restingOrders.mpr ⟨_, resting⟩, tags, less⟩

end Outcome

end Book

/-- What a command on a book does to the market: nothing, or an admitted call. -/
theorem Market.apply_events (market : Market) {command : Command} {symbol : SymbolId} {op : BookOp}
    (targets : command.target = some (symbol, op)) :
    market.apply command = (market, []) ∨
      ∃ book, market.books.find? symbol = some book ∧ book.admits op = true ∧
        market.apply command =
          ({ market with
              books := market.books.insert symbol (book.apply op).1
              seq := market.seq + 1 + (book.apply op).2.trades.length },
            op.opening symbol (market.seq + 1) ::
              tradeEvents symbol (market.seq + 1) (book.apply op).2.trades) := by
  rw [apply_eq_call targets]
  rcases market.call_cases symbol op with idle | ⟨book, known, admitted⟩
  · exact Or.inl idle
  · exact Or.inr ⟨book, known, admitted, call_admitted known admitted⟩

end Qsl
