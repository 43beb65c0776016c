import Qsl.OracleBook
import Mathlib.Algebra.Order.BigOperators.Group.List
import Mathlib.Algebra.Order.Group.Nat

/- The snapshot the oracle takes of a book is that of the priority book, as long as no level
total leaves the native integers. -/
namespace Qsl.Oracle

open List
open ReplayEngine (wrap)

def levelViewOf (view : LevelView) : ReplayEngine.LevelView :=
  ⟨view.price.toInt, view.quantity.toNat⟩

def symSnapshotOf (snapshot : SymbolSnapshot) : ReplayEngine.SymSnapshot :=
  ⟨snapshot.symbol.toNat, snapshot.bestBid.map Int64.toInt, snapshot.bestAsk.map Int64.toInt,
    snapshot.orderCount, snapshot.bids.map levelViewOf, snapshot.asks.map levelViewOf⟩

/-- The quantity at one price, unbounded. -/
def levelTotal (orders : List Order) (side : Side) (price : Price) : Nat :=
  ((orders.filter (fun order => order.side = side ∧ order.price = price)).map
    (fun order => order.quantity.toNat)).sum

theorem levelTotal_le (orders : List Order) (side : Side) (price : Price) :
    levelTotal orders side price ≤ (orders.map (fun order => order.quantity.toNat)).sum :=
  (filter_sublist.map _).sum_le_sum (fun _ _ => Nat.zero_le _)

theorem foldl_wrap (orders : List Order) (start : Int) :
    (orders.map entryOf).foldl (fun total entry => wrap (total + entry.qty)) (wrap start) =
      wrap (start + (orders.map (fun order => order.quantity.toNat)).sum) := by
  induction orders generalizing start with
  | nil => simp
  | cons order orders ih =>
    rw [map_cons, foldl_cons, wrap_wrap_add, ih, map_cons, sum_cons,
      Int.natCast_add, ← Int.add_assoc]
    rfl

/-- A level total in range is the same number on both sides. -/
theorem total_eq (orders : List Order)
    (small : (orders.map (fun order => order.quantity.toNat)).sum < 2 ^ 62) :
    (orders.map entryOf).foldl (fun total entry => wrap (total + entry.qty)) 0 =
      ((totalQuantity orders).toNat : Int) := by
  have folded := foldl_wrap orders 0
  rw [wrap_eq (by omega) (by omega), Int.zero_add, wrap_eq (by omega) (by omega)] at folded
  rw [folded, totalQuantity_mod, Nat.mod_eq_of_lt (by omega)]

section Book

variable {b : ReplayEngine.Book} {book : Book}

/-- The best price that a taker meets. -/
theorem Mirrors.bestPrice_eq (mirrors : Mirrors b book) (valid : book.WellFormed) (taker : Side) :
    (if taker == .buy then (levelsOf b taker.opposite).first?
      else (levelsOf b taker.opposite).last?).map Prod.fst =
        (book.bestPrice taker.opposite).map Int64.toInt := by
  have grouped := mirrors.levels taker.opposite
  have ordered := valid.sorted taker.opposite
  rw [Book.bestPrice]
  cases shape : book.side taker.opposite with
  | nil =>
    rw [shape] at grouped
    rw [OrderedMap.first?, OrderedMap.last?, grouped.entries_nil]
    cases taker <;> rfl
  | cons maker rest =>
    rw [shape] at grouped ordered
    rw [bestLevel_eq taker grouped ordered]
    rfl

/-- The occupied prices of a side, best first, as the oracle's integers. -/
def ticks (book : Book) (side : Side) : List Int :=
  ((book.side side).map Order.price).dedup.map Int64.toInt

theorem mem_ticks (book : Book) (side : Side) (price : Int) :
    price ∈ ticks book side ↔ ∃ order ∈ book.side side, tick order = price := by
  simp only [ticks, mem_map, mem_dedup, exists_exists_and_eq_and, tick]

theorem Mirrors.bidKeys (mirrors : Mirrors b book) (valid : book.WellFormed) :
    b.bids.keys = (ticks book .buy).reverse := by
  apply (mirrors.levels .buy).keys_eq
  · rw [pairwise_reverse, ticks, pairwise_map]
    apply (valid.prices_sorted .buy).imp
    intro a b better
    exact Int64.lt_iff_toInt_lt.mp better
  · intro price
    rw [mem_reverse, mem_ticks]

theorem Mirrors.askKeys (mirrors : Mirrors b book) (valid : book.WellFormed) :
    b.asks.keys = ticks book .sell := by
  apply (mirrors.levels .sell).keys_eq
  · rw [ticks, pairwise_map]
    apply (valid.prices_sorted .sell).imp
    intro a b better
    exact Int64.lt_iff_toInt_lt.mp better
  · intro price
    rw [mem_ticks]

/-- The view of each level, read at its price. -/
theorem levelView_eq (valid : book.WellFormed) (side : Side) {price : Price}
    (small : levelTotal book.restingOrders side price < 2 ^ 62) :
    (levelAt (book.side side) price.toInt).foldl (fun total entry => wrap (total + entry.qty)) 0 =
      ((book.quantityAt side price).toNat : Int) := by
  rw [groupAt_price, Book.quantityAt]
  apply total_eq
  rw [levelTotal] at small
  rw [← valid.side_filter side, filter_filter]
  simpa only [Bool.decide_and, Bool.and_comm] using small

section

variable (mirrors : Mirrors b book) (valid : book.WellFormed)
  (small : ∀ side price, levelTotal book.restingOrders side price < 2 ^ 62)

include mirrors valid small

theorem Mirrors.levelViews_eq (side : Side) :
    ReplayEngine.levelViews (levelsOf b side) (side = .buy) =
      (book.levelViews side).map levelViewOf := by
  have views : (ticks book side).map (fun price => (⟨price,
      (levelAt (book.side side) price).foldl (fun total entry => wrap (total + entry.qty)) 0⟩ :
        ReplayEngine.LevelView)) = (book.levelViews side).map levelViewOf := by
    rw [ticks, Book.levelViews, map_map, map_map]
    apply map_congr_left
    intro price _
    simp only [Function.comp_apply, levelView_eq valid side (small side price), levelViewOf]
  have entries := (mirrors.levels side).map_entries (fun price level =>
    (⟨price, level.foldl (fun total entry => wrap (total + entry.qty)) 0⟩ : ReplayEngine.LevelView))
  rw [← views]
  cases side with
  | buy =>
    have keys : (levelsOf b .buy).keys = (ticks book .buy).reverse := mirrors.bidKeys valid
    rw [keys, map_reverse] at entries
    show (levelsOf b .buy).entries.reverse.map _ = _
    rw [map_reverse, entries, reverse_reverse]
  | sell =>
    have keys : (levelsOf b .sell).keys = ticks book .sell := mirrors.askKeys valid
    rw [keys] at entries
    exact entries

theorem Mirrors.snapshot_eq (symbol : SymbolId) :
    ReplayEngine.symSnapshot symbol.toNat b =
      symSnapshotOf ⟨symbol, book.bestPrice .buy, book.bestPrice .sell, book.restingOrders.length,
        book.levelViews .buy, book.levelViews .sell⟩ := by
  have bids := mirrors.levelViews_eq valid small .buy
  have asks := mirrors.levelViews_eq valid small .sell
  have count := mirrors.locs.size_eq
  have bestBid : b.bids.last?.map Prod.fst = (book.bestPrice .buy).map Int64.toInt :=
    mirrors.bestPrice_eq valid .sell
  have bestAsk : b.asks.first?.map Prod.fst = (book.bestPrice .sell).map Int64.toInt :=
    mirrors.bestPrice_eq valid .buy
  rw [length_map] at count
  simp only [ReplayEngine.symSnapshot, symSnapshotOf, bestBid, bestAsk, count, ← bids, ← asks]
  rfl

end

end Book

end Qsl.Oracle
