import Qsl.BookRenaming
import Qsl.Exchange
import Qsl.Renumber

/- Two markets that differ in the names of symbols and orders, and in symbols nobody asks for,
answer commands alike. -/
namespace Qsl

open List OrderedMap

section Names

variable (symbols : SymbolId → SymbolId) (ids : OrderId → OrderId)

def EngineEvent.rename : EngineEvent → EngineEvent
  | .orderAccepted seq symbol orderId => .orderAccepted seq (symbols symbol) (ids orderId)
  | .orderCanceled seq symbol orderId => .orderCanceled seq (symbols symbol) (ids orderId)
  | .orderModified seq symbol orderId => .orderModified seq (symbols symbol) (ids orderId)
  | .tradeEvent seq symbol takerId makerId price quantity =>
    .tradeEvent seq (symbols symbol) (ids takerId) (ids makerId) price quantity

def GatewayResult.rename (result : GatewayResult) : GatewayResult :=
  { result with events := result.events.map (EngineEvent.rename symbols ids) }

def SymbolSnapshot.rename (snapshot : SymbolSnapshot) : SymbolSnapshot :=
  { snapshot with symbol := symbols snapshot.symbol }

theorem Command.rename_target (command : Command) :
    (command.rename symbols ids).target =
      command.target.map (fun target => (symbols target.1, target.2.rename ids)) := by
  cases command <;> rfl

theorem BookOp.rename_opening (op : BookOp) (symbol : SymbolId) (seq : SeqNo) :
    (op.rename ids).opening (symbols symbol) seq = (op.opening symbol seq).rename symbols ids := by
  cases op <;> rfl

theorem tradeEvents_rename (symbol : SymbolId) (seq : SeqNo) (trades : List Trade) :
    tradeEvents (symbols symbol) seq (trades.map (Trade.rename ids)) =
      (tradeEvents symbol seq trades).map (EngineEvent.rename symbols ids) := by
  induction trades generalizing seq with
  | nil => rfl
  | cons trade trades ih =>
    rw [map_cons, tradeEvents, ih, tradeEvents, map_cons]
    rfl

theorem BookReply.rename_trades (reply : BookReply) :
    (reply.rename ids).trades = reply.trades.map (Trade.rename ids) := by
  cases reply <;> rfl

end Names

namespace Market

/-- The books of the tracked symbols under their new names, and no others. -/
structure Renamed (symbols : SymbolId → SymbolId) (ids : OrderId → OrderId)
    (tracked : SymbolId → Prop) (market other : Market) : Prop where
  seq : other.seq = market.seq
  book : ∀ symbol, tracked symbol →
    other.books.find? (symbols symbol) = (market.books.find? symbol).map (Book.rename ids)
  only : ∀ name, other.books.contains name = true → ∃ symbol, tracked symbol ∧ symbols symbol = name

variable {symbols : SymbolId → SymbolId} {ids : OrderId → OrderId} {tracked : SymbolId → Prop}
  {market other : Market} {symbol : SymbolId}

theorem Renamed.contains (renamed : Renamed symbols ids tracked market other)
    (asked : tracked symbol) :
    other.books.contains (symbols symbol) = market.books.contains symbol := by
  rw [OrderedMap.contains, renamed.book symbol asked, Option.isSome_map]
  rfl

/-- A symbol nobody asks for. -/
theorem Renamed.untracked (renamed : Renamed symbols ids tracked market other)
    (ignored : ¬ tracked symbol) (book : Book) (registry : SymbolRegistry) :
    Renamed symbols ids tracked ⟨registry, market.books.insert symbol book, market.seq⟩ other where
  seq := renamed.seq
  book := by
    intro named asked
    have differ : named ≠ symbol := fun same => ignored (same ▸ asked)
    simp only [find?_insert, if_neg differ]
    exact renamed.book named asked
  only := renamed.only

section Answers

variable (apart : Function.Injective ids)

include apart

variable {command : Command} (named : command.symbol? = some symbol)

include named

theorem Renamed.verdict (renamed : Renamed symbols ids tracked market other)
    (asked : tracked symbol) (config : RiskConfig) :
    other.verdict config (command.rename symbols ids) = market.verdict config command := by
  have same := renamed.book symbol asked
  cases command <;> cases named <;>
    simp only [Market.verdict, Command.rename, same] <;>
    cases market.books.find? symbol <;>
    simp only [Option.map_none, Option.map_some, Book.rename_contains _ apart]

theorem Renamed.rooms (renamed : Renamed symbols ids tracked market other)
    (asked : tracked symbol) (storage : Storage) :
    other.rooms storage (command.rename symbols ids) = market.rooms storage command := by
  have same := renamed.book symbol asked
  have targets : ∃ op, command.target = some (symbol, op) := by
    cases command <;> cases named <;> exact ⟨_, rfl⟩
  obtain ⟨op, target⟩ := targets
  simp only [Market.rooms, Command.rename_target, target, Option.map_some, same]
  cases market.books.find? symbol with
  | none => rfl
  | some book => exact book.rename_rooms apart storage op

end Answers

section Books

variable (distinct : Function.Injective symbols)

include distinct

/-- A book of the same symbol on both sides. -/
theorem Renamed.insert (renamed : Renamed symbols ids tracked market other)
    (asked : tracked symbol) (book : Book) (seq : SeqNo) (registry registry' : SymbolRegistry) :
    Renamed symbols ids tracked ⟨registry, market.books.insert symbol book, seq⟩
      ⟨registry', other.books.insert (symbols symbol) (book.rename ids), seq⟩ where
  seq := rfl
  book := by
    intro named asked'
    simp only [find?_insert, distinct.eq_iff]
    split
    · rfl
    · exact renamed.book named asked'
  only := by
    intro name known
    simp only [OrderedMap.contains, find?_insert] at known
    split at known
    · rename_i same
      exact ⟨symbol, asked, same.symm⟩
    · exact renamed.only name known

variable (apart : Function.Injective ids)

include apart

theorem Renamed.call (renamed : Renamed symbols ids tracked market other) (asked : tracked symbol)
    (op : BookOp) :
    Renamed symbols ids tracked (market.call symbol op).1
        (other.call (symbols symbol) (op.rename ids)).1 ∧
      (other.call (symbols symbol) (op.rename ids)).2 =
        (market.call symbol op).2.map (EngineEvent.rename symbols ids) := by
  have same := renamed.book symbol asked
  cases known : market.books.find? symbol with
  | none =>
    rw [known, Option.map_none] at same
    rw [call_unknown known, call_unknown same]
    exact ⟨renamed, rfl⟩
  | some book =>
    rw [known, Option.map_some] at same
    have admits := book.rename_admits apart op
    cases admitted : book.admits op with
    | false =>
      rw [admitted] at admits
      rw [call_turned known admitted, call_turned same admits]
      exact ⟨renamed, rfl⟩
    | true =>
      rw [admitted] at admits
      simp only [Market.call, known, same, admitted, admits, if_true, renamed.seq,
        book.rename_apply apart op, BookReply.rename_trades, length_map]
      refine ⟨renamed.insert distinct asked _ _ _ _, ?_⟩
      rw [BookOp.rename_opening, tradeEvents_rename, map_cons]

variable {command : Command} (named : command.symbol? = some symbol)

include named

theorem Renamed.apply (renamed : Renamed symbols ids tracked market other)
    (asked : tracked symbol) :
    Renamed symbols ids tracked (market.apply command).1
        (other.apply (command.rename symbols ids)).1 ∧
      (other.apply (command.rename symbols ids)).2 =
        (market.apply command).2.map (EngineEvent.rename symbols ids) := by
  cases command <;> cases named <;> exact renamed.call distinct apart asked _

/-- A command about a tracked symbol has the same answer in both markets. -/
theorem Renamed.exchange (renamed : Renamed symbols ids tracked market other)
    (asked : tracked symbol) (storage : Storage) (config : RiskConfig) :
    Renamed symbols ids tracked (market.exchange storage config command).1
        (other.exchange storage config (command.rename symbols ids)).1 ∧
      (other.exchange storage config (command.rename symbols ids)).2 =
        (market.exchange storage config command).2.rename symbols ids := by
  rw [Market.exchange, Market.exchange, renamed.verdict apart named asked,
    renamed.rooms apart named asked]
  split
  · exact ⟨renamed, rfl⟩
  · split
    · exact ⟨renamed, rfl⟩
    · obtain ⟨left, answer⟩ := renamed.apply distinct apart named asked
      refine ⟨left, ?_⟩
      rw [answer]
      rfl

end Books

section Snapshot

variable [DecidablePred tracked]
variable (renamed : Renamed symbols ids tracked market other)
  (ordered : ∀ a b, tracked a → tracked b → market.books.contains a = true →
    market.books.contains b = true → a < b → symbols a < symbols b)

include renamed ordered

/-- The books of the renamed market in the order of their new names. -/
theorem Renamed.entries :
    other.books.entries = (market.books.entries.filter (fun entry => tracked entry.1)).map
      (fun entry => (symbols entry.1, entry.2.rename ids)) := by
  have contained : ∀ entry ∈ market.books.entries, market.books.contains entry.1 = true := by
    intro entry member
    rw [OrderedMap.contains, OrderedMap.find?_eq_some.mpr member]
    rfl
  have sorted : ((market.books.entries.filter (fun entry => tracked entry.1)).map
      (fun entry => (symbols entry.1, entry.2.rename ids))).Pairwise (fun a b => a.1 < b.1) := by
    rw [pairwise_map]
    refine (market.books.sorted.filter _).imp_of_mem ?_
    intro a b inA inB below
    rw [mem_filter, decide_eq_true_iff] at inA inB
    exact ordered a.1 b.1 inA.2 inB.2 (contained a inA.1) (contained b inB.1) below
  have same : other.books = ⟨_, sorted⟩ := by
    apply eq_of_find?_eq
    intro name
    apply Option.ext
    intro book
    refine Iff.trans ?_ OrderedMap.find?_eq_some.symm
    rw [mem_map]
    constructor
    · intro found
      have known : other.books.contains name = true := by
        rw [OrderedMap.contains, found]
        rfl
      obtain ⟨symbol, asked, rfl⟩ := renamed.only name known
      rw [renamed.book symbol asked, Option.map_eq_some_iff] at found
      obtain ⟨original, there, rfl⟩ := found
      exact ⟨(symbol, original), mem_filter.mpr
        ⟨OrderedMap.find?_eq_some.mp there, decide_eq_true asked⟩, rfl⟩
    · rintro ⟨entry, member, equal⟩
      obtain ⟨there, asked⟩ := mem_filter.mp member
      cases equal
      rw [renamed.book entry.1 (of_decide_eq_true asked), OrderedMap.find?_eq_some.mpr there]
      rfl
  rw [same]

/-- The snapshot of the renamed market is that of the tracked symbols under their new names. -/
theorem Renamed.snapshot :
    other.snapshot = ⟨market.snapshot.lastSeq,
      (market.snapshot.symbols.filter (fun view => tracked view.symbol)).map
        (SymbolSnapshot.rename symbols)⟩ := by
  rw [Market.snapshot, renamed.seq, renamed.entries ordered, Market.snapshot, filter_map,
    map_map, map_map]
  congr 1
  apply map_congr_left
  intro entry _
  simp only [Function.comp_apply, Book.rename_bestPrice, Book.rename_restingOrders,
    length_map, Book.rename_levelViews, SymbolSnapshot.rename]

end Snapshot

end Market

end Qsl
