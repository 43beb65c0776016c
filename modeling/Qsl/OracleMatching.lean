import Qsl.ReplayEngine
import Qsl.Groups

/- The oracle's matching is the walk over the priority list: its price maps hold the orders
of a side grouped by price, whichever way the prices run. -/
namespace Qsl.Oracle

open List
open ReplayEngine (wrap consume matchQty IMap)

variable {price : Price} {levels : IMap (List ReplayEngine.Order)}

theorem wrap_eq {n : Int} (low : 0 ≤ n) (high : n < 2 ^ 62) : wrap n = n := by
  apply Int.bmod_eq_of_le <;> omega

theorem wrap_wrap_add (m n : Int) : wrap (wrap m + n) = wrap (m + n) := Int.bmod_add_bmod

theorem wrap_add_wrap (m n : Int) : wrap (m + wrap n) = wrap (m + n) := Int.add_bmod_bmod

def entryOf (order : Order) : ReplayEngine.Order := ⟨order.id.toNat, order.quantity.toNat⟩

def tradeOf (trade : Trade) : ReplayEngine.Trade :=
  (trade.takerId.toNat, trade.makerId.toNat, trade.price.toInt, trade.quantity.toNat)

/-- What the oracle keeps about an id: the side and price of its order. -/
def locOf (order : Order) : Int × Side × Int := (order.id.toNat, order.side, order.price.toInt)

def tick (order : Order) : Int := order.price.toInt

/-- The price map holds these orders, grouped by price. -/
abbrev Levels (levels : IMap (List ReplayEngine.Order)) (orders : List Order) : Prop :=
  OrderedMap.Groups tick entryOf levels orders

abbrev levelAt (orders : List Order) (price : Int) : List ReplayEngine.Order :=
  OrderedMap.groupAt tick entryOf orders price

theorem traded_eq (taker maker : Quantity) :
    min (taker.toNat : Int) maker.toNat = (min taker maker).toNat := by
  rw [quantity_min]
  split
  · rename_i below
    rw [UInt32.le_iff_toNat_le] at below
    omega
  · rename_i above
    rw [UInt32.le_iff_toNat_le] at above
    omega

theorem wrap_sub {whole part : Quantity} (within : part ≤ whole) :
    wrap (whole.toNat - part.toNat) = (whole - part).toNat := by
  have exact := UInt32.toNat_sub_of_le whole part within
  have small := whole.toNat_lt
  rw [UInt32.le_iff_toNat_le] at within
  rw [exact, Int.ofNat_sub within]
  apply wrap_eq <;> omega

/-- Both differences of a fill are exact. -/
theorem fill_eq (taker maker : Quantity) :
    wrap (taker.toNat - (min taker maker).toNat) = (taker - min taker maker).toNat ∧
      wrap (maker.toNat - (min taker maker).toNat) = (maker - min taker maker).toNat := by
  have bounds : min taker maker ≤ taker ∧ min taker maker ≤ maker := by
    rcases fill_cases taker maker with ⟨covered, traded, _⟩ | ⟨short, traded, _⟩
    · rw [traded]
      exact ⟨covered, UInt32.le_refl _⟩
    · rw [traded]
      exact ⟨UInt32.le_refl _, UInt32.le_of_lt short⟩
  exact ⟨wrap_sub bounds.1, wrap_sub bounds.2⟩

theorem quantity_le_zero (quantity : Quantity) : (quantity.toNat : Int) ≤ 0 ↔ quantity = 0 := by
  rw [← UInt32.toNat_inj, UInt32.toNat_zero]
  omega

theorem quantity_eq_zero (quantity : Quantity) : (quantity.toNat : Int) = 0 ↔ quantity = 0 := by
  rw [← UInt32.toNat_inj, UInt32.toNat_zero]
  omega

section Walk

variable {taker : Taker} {others : List (Int × Side × Int)} {locs : IMap (Side × Int)}

/-- Consuming a level that crosses walks it and keeps the locations of what is left. -/
theorem consume_eq (crossing : taker.crosses price = true) {level : List Order}
    (filed : ∀ order ∈ level, order.price = price)
    (located : locs.Indexes (level.map locOf ++ others)) (quantity : Quantity)
    (trades : List ReplayEngine.Trade) :
    let swept := sweep taker level quantity
    ∃ locs', consume taker.id.toNat price.toInt (level.map entryOf) locs quantity.toNat trades =
        (swept.left.map entryOf, locs', (swept.remaining.toNat : Int),
          (swept.trades.map tradeOf).reverse ++ trades) ∧
      locs'.Indexes (swept.left.map locOf ++ others) := by
  induction level generalizing locs quantity trades with
  | nil => exact ⟨locs, rfl, located⟩
  | cons maker rest ih =>
    have priced := filed maker mem_cons_self
    rw [map_cons, consume]
    by_cases done : quantity = 0
    · subst done
      rw [sweep_zero, if_pos (by decide)]
      exact ⟨locs, rfl, located⟩
    · rw [if_neg ((quantity_le_zero quantity).not.mpr done)]
      simp only [entryOf, traded_eq, fill_eq, quantity_eq_zero]
      by_cases exhausted : maker.quantity - min quantity maker.quantity = 0
      · rw [sweep_exhaust taker done (priced ▸ crossing) exhausted, if_pos exhausted]
        obtain ⟨locs', walked, left⟩ :=
          ih (fun order member => filed order (mem_cons_of_mem _ member))
            located.erase_head (quantity - min quantity maker.quantity)
            ((taker.id.toNat, maker.id.toNat, price.toInt, (min quantity maker.quantity).toNat) ::
              trades)
        refine ⟨locs', ?_, left⟩
        rw [← priced] at walked ⊢
        rw [walked]
        simp [tradeOf]
      · rw [sweep_survive taker done (priced ▸ crossing) exhausted, if_neg exhausted]
        refine ⟨locs, ?_, located⟩
        rw [← priced]
        rfl

/-- The level the oracle takes next is that of the front order. -/
theorem bestLevel_eq {maker : Order} {rest : List Order} (side : Side)
    (grouped : Levels levels (maker :: rest))
    (ordered : (maker :: rest).Pairwise (fun a b => ¬ Better side.opposite b.price a.price)) :
    (if side == .buy then levels.first? else levels.last?) =
      some (maker.price.toInt, levelAt (maker :: rest) maker.price.toInt) := by
  have ahead : ∀ order ∈ maker :: rest, ¬ Better side.opposite order.price maker.price := by
    intro order member
    rcases mem_cons.mp member with same | later
    · rw [same]
      exact irrefl _
    · exact (pairwise_cons.mp ordered).1 order later
  cases side with
  | buy =>
    apply grouped.first? mem_cons_self
    intro order member
    exact fun below => ahead order member (Int64.lt_iff_toInt_lt.mpr below)
  | sell =>
    apply grouped.last? mem_cons_self
    intro order member
    exact fun above => ahead order member (Int64.lt_iff_toInt_lt.mpr above)

theorem crosses_eq (taker : Taker) (price : Price) :
    (taker.isMarket || (if taker.side == .buy then decide (price.toInt ≤ taker.limit.toInt)
      else decide (price.toInt ≥ taker.limit.toInt))) = taker.crosses price := by
  rw [Taker.crosses, canMatchLevel]
  simp only [Int64.le_iff_toInt_le, ge_iff_le]
  cases taker.isMarket <;> rfl

/-- The front group of a side and the orders behind it. -/
theorem front_level {side : Side} {maker : Order} {rest : List Order}
    (ordered : (maker :: rest).Pairwise (fun a b => ¬ Better side b.price a.price)) :
    maker :: rest = (maker :: rest).filter (fun order => order.price = maker.price) ++
      (maker :: rest).filter (fun order => order.price ≠ maker.price) := by
  apply OrderedMap.leading_group ordered
  intro order member
  rcases mem_cons.mp member with same | later
  · rw [same]
    exact irrefl _
  · exact (pairwise_cons.mp ordered).1 order later

theorem groupAt_price (orders : List Order) (price : Price) :
    levelAt orders price.toInt = (orders.filter (fun order => order.price = price)).map entryOf := by
  simp only [levelAt, OrderedMap.groupAt, tick, Int64.toInt_inj]

/-- Walking the front level leaves a side whose other levels are as they were. -/
theorem Levels.walked {front back left : List Order} (grouped : Levels levels (front ++ back))
    (filed : ∀ order ∈ front, order.price = price) (kept : ∀ order ∈ left, order.price = price)
    (apart : ∀ order ∈ back, order.price ≠ price) :
    Levels (levels.putGroup price.toInt (left.map entryOf)) (left ++ back) := by
  have own : ∀ orders : List Order, (∀ order ∈ orders, order.price = price) →
      orders.filter (fun order => order.price = price) = orders := by
    intro orders same
    apply filter_eq_self.mpr
    intro order member
    exact decide_eq_true (same order member)
  have none : ∀ orders : List Order, (∀ order ∈ orders, order.price = price) →
      ∀ other, other ≠ price.toInt → levelAt orders other = [] := by
    intro orders same other differ
    rw [levelAt, OrderedMap.groupAt, map_eq_nil_iff, filter_eq_nil_iff]
    intro order member hit
    rw [tick, same order member] at hit
    exact differ (of_decide_eq_true hit).symm
  have vacant : back.filter (fun order => order.price = price) = [] := by
    rw [filter_eq_nil_iff]
    intro order member hit
    exact apart order member (of_decide_eq_true hit)
  have joined : ∀ orders other, levelAt (orders ++ back) other =
      levelAt orders other ++ levelAt back other := by
    intro orders other
    simp only [levelAt, OrderedMap.groupAt, filter_append, map_append]
  have level : levelAt (left ++ back) price.toInt = left.map entryOf := by
    rw [groupAt_price, filter_append, own left kept, vacant, append_nil]
  rw [← level]
  apply grouped.put
  intro other differ
  show levelAt (left ++ back) other = levelAt (front ++ back) other
  rw [joined, joined, none left kept other differ, none front filed other differ]

theorem sweep_left_prices (taker : Taker) (orders : List Order) (quantity : Quantity) :
    ((sweep taker orders quantity).left.map Order.price).Sublist (orders.map Order.price) := by
  have tags := (Book.sweep_left_tags taker orders quantity).map (fun tag => tag.2.2)
  rwa [map_map, map_map] at tags

theorem sweep_left_filed {orders : List Order} (filed : ∀ order ∈ orders, order.price = price)
    (taker : Taker) (quantity : Quantity) :
    ∀ order ∈ (sweep taker orders quantity).left, order.price = price := by
  intro order member
  have listed := (sweep_left_prices taker orders quantity).subset (mem_map_of_mem member)
  obtain ⟨source, inside, same⟩ := mem_map.mp listed
  rw [← same, filed source inside]

theorem sweep_left_ordered {side : Side} {front back : List Order}
    (ordered : (front ++ back).Pairwise (fun a b => ¬ Better side b.price a.price))
    (taker : Taker) (quantity : Quantity) :
    ((sweep taker front quantity).left ++ back).Pairwise
      (fun a b => ¬ Better side b.price a.price) := by
  have whole : ((front ++ back).map Order.price).Pairwise (fun a b => ¬ Better side b a) :=
    pairwise_map.mpr ordered
  have prices : (((sweep taker front quantity).left ++ back).map Order.price).Sublist
      ((front ++ back).map Order.price) := by
    rw [map_append, map_append]
    exact (sweep_left_prices taker front quantity).append (List.Sublist.refl _)
  exact pairwise_map.mp (whole.sublist prices)

/-- A round fills the taker or takes a level out. -/
theorem round_progress {level : List ReplayEngine.Order}
    (found : levels.find? price.toInt = some level) {front : List Order}
    (crossing : taker.crosses price = true) (filed : ∀ order ∈ front, order.price = price)
    (quantity : Quantity) :
    (sweep taker front quantity).remaining = 0 ∨
      (levels.putGroup price.toInt ((sweep taker front quantity).left.map entryOf)).size <
        levels.size := by
  by_cases used : (sweep taker front quantity).left = []
  · right
    rw [used]
    exact OrderedMap.size_erase_lt (OrderedMap.find?_eq_some.mp found)
  · exact Or.inl (sweep_level_left crossing filed used)

/-- The rounds over the levels are one walk over the side. Each round but the last takes a
level out, so that as many rounds as there are levels are enough. -/
theorem matchQty_eq {orders : List Order}
    (ordered : orders.Pairwise (fun a b => ¬ Better taker.side.opposite b.price a.price))
    (grouped : Levels levels orders) (located : locs.Indexes (orders.map locOf ++ others))
    (quantity : Quantity) (bound : Nat) (enough : quantity = 0 ∨ levels.size ≤ bound)
    (trades : List ReplayEngine.Trade) :
    let swept := sweep taker orders quantity
    ∃ levels' locs', matchQty taker.id.toNat (taker.side == .buy) taker.limit.toInt taker.isMarket
        bound levels locs quantity.toNat trades =
          (levels', locs', (swept.trades.map tradeOf).reverse ++ trades,
            (swept.remaining.toNat : Int)) ∧
      Levels levels' swept.left ∧ locs'.Indexes (swept.left.map locOf ++ others) := by
  induction bound generalizing levels locs orders quantity trades with
  | zero =>
    have idle : sweep taker orders quantity = ⟨[], [], quantity, orders⟩ := by
      rcases enough with done | small
      · rw [done, sweep_zero]
      · cases orders with
        | nil => rfl
        | cons maker rest =>
          have key := (grouped.mem_keys maker.price.toInt).mpr ⟨maker, mem_cons_self, rfl⟩
          have length := length_pos_of_mem key
          rw [OrderedMap.keys, length_map] at length
          exact absurd length (Nat.not_lt.mpr small)
    rw [idle]
    exact ⟨levels, locs, rfl, grouped, located⟩
  | succ bound ih =>
    rw [matchQty]
    cases orders with
    | nil =>
      have missing : (if taker.side == .buy then levels.first? else levels.last?) = none := by
        rw [OrderedMap.first?, OrderedMap.last?, grouped.entries_nil]
        exact ite_self none
      rw [missing]
      exact ⟨levels, locs, rfl, grouped, located⟩
    | cons maker rest =>
      have found := grouped.find?_of_mem (mem_cons_self : maker ∈ maker :: rest)
      simp only [bestLevel_eq taker.side grouped ordered]
      by_cases done : quantity = 0
      · subst done
        rw [sweep_zero, if_pos (by decide)]
        exact ⟨levels, locs, rfl, grouped, located⟩
      rw [if_neg ((quantity_le_zero quantity).not.mpr done)]
      rw [crosses_eq]
      cases crossing : taker.crosses maker.price with
      | false =>
        rw [sweep_stop taker (Or.inr crossing)]
        exact ⟨levels, locs, rfl, grouped, located⟩
      | true =>
        rw [if_pos rfl, groupAt_price]
        have shape := front_level ordered
        have filed : ∀ order ∈ (maker :: rest).filter (fun order => order.price = maker.price),
            order.price = maker.price :=
          fun order member => of_decide_eq_true (mem_filter.mp member).2
        have apart : ∀ order ∈ (maker :: rest).filter (fun order => order.price ≠ maker.price),
            order.price ≠ maker.price :=
          fun order member => of_decide_eq_true (mem_filter.mp member).2
        generalize (maker :: rest).filter (fun order => order.price = maker.price) = front
          at shape filed ⊢
        generalize (maker :: rest).filter (fun order => order.price ≠ maker.price) = back
          at shape apart
        rw [shape] at grouped located ordered ⊢
        rw [map_append, append_assoc] at located
        obtain ⟨locs', consumed, relocated⟩ := consume_eq crossing filed located quantity trades
        have regrouped :=
          Levels.walked grouped filed (sweep_left_filed filed taker quantity) apart
        have reordered := sweep_left_ordered ordered taker quantity
        have progress := (round_progress found crossing filed quantity).imp_right
          (fun fewer => Nat.le_of_lt_succ (fewer.trans_le (enough.resolve_left done)))
        rw [← append_assoc, ← map_append] at relocated
        obtain ⟨levels', locs'', rounds, final⟩ := ih reordered regrouped relocated
          (sweep taker front quantity).remaining progress
          (((sweep taker front quantity).trades.map tradeOf).reverse ++ trades)
        rw [sweep_resume crossing filed]
        refine ⟨levels', locs'', ?_, final⟩
        simp only [consumed, OrderedMap.putGroup_eq, rounds, map_append,
          reverse_append, append_assoc]

end Walk

end Qsl.Oracle
