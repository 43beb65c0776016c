import Qsl.OracleSnapshot
import Qsl.MarketInvariant
import Qsl.RelatedMaps

/- The oracle agrees with the engine over whole command lists. -/
namespace Qsl.Oracle

open List OrderedMap
open ReplayEngine (wrap)

/-- The command as the oracle reads it. -/
def commandOf : Command → ReplayEngine.Command
  | .registerSymbol name => .reg name
  | .newLimit symbol id side price quantity tif =>
    .limit symbol.toNat id.toNat side price.toInt quantity.toNat tif
  | .newMarket symbol id side quantity => .market symbol.toNat id.toNat side quantity.toNat
  | .cancel symbol id => .cancel symbol.toNat id.toNat
  | .modify symbol id price quantity => .modify symbol.toNat id.toNat price.toInt quantity.toNat

def limitsOf (config : RiskConfig) : ReplayEngine.Limits :=
  ⟨config.maxOrderQuantity.toNat, config.maxNotional.toNat⟩

section Risk

/-- The oracle's text for a risk verdict. -/
def riskText : RejectReason → Option String
  | .invalidPrice => some "InvalidPrice"
  | .invalidQuantity => some "InvalidQuantity"
  | .maxQuantityExceeded => some "MaxQuantityExceeded"
  | .maxNotionalExceeded => some "MaxNotionalExceeded"
  | _ => none

theorem quantity_lt {a b : Quantity} : (a.toNat : Int) > b.toNat ↔ a > b := by
  rw [gt_iff_lt, gt_iff_lt, UInt32.lt_iff_toNat_lt, Int.ofNat_lt]

/-- Dividing the notional limit by a positive price is the same on both sides. -/
theorem notional_eq (config : RiskConfig) {price : Price} (positive : 0 < price)
    (quantity : Quantity) :
    (quantity.toNat : Int) > (config.maxNotional.toNat : Int).tdiv price.toInt ↔
      quantity.toUInt64 > config.maxNotional / price.toUInt64 := by
  rw [← price_toUInt64 positive, Int.tdiv_eq_ediv_of_nonneg (Int.natCast_nonneg _), gt_iff_lt,
    gt_iff_lt, UInt64.lt_iff_toNat_lt, UInt64.toNat_div, UInt32.toNat_toUInt64]
  exact Int.ofNat_lt

theorem checkLimitValues_eq (config : RiskConfig) (price : Price) (quantity : Quantity) :
    ReplayEngine.checkLimitValues (limitsOf config) price.toInt quantity.toNat =
      riskText (config.checkLimitValues price quantity) := by
  rw [ReplayEngine.checkLimitValues, RiskConfig.checkLimitValues]
  by_cases priced : 0 < price
  · have sign : ¬ price.toInt ≤ 0 := Int.not_le.mpr (Int64.lt_iff_toInt_lt.mp priced)
    rw [if_neg sign]
    simp only [isValidPrice, isValidQuantity, priced, quantity_le_zero, quantity_pos, limitsOf,
      quantity_lt, notional_eq config priced, decide_true, Bool.not_true, Bool.false_eq_true,
      if_false, decide_not, Bool.not_not, decide_eq_true_eq]
    split
    · rfl
    split
    · rfl
    split <;> rfl
  · have sign : price.toInt ≤ 0 := Int.not_lt.mp (fun above => priced (Int64.lt_iff_toInt_lt.mpr above))
    rw [if_pos sign]
    simp only [isValidPrice, priced, decide_false, Bool.not_false, if_true]
    rfl

theorem checkMarket_eq (config : RiskConfig) (side : Side) (quantity : Quantity) :
    ReplayEngine.checkMarket (limitsOf config) quantity.toNat =
      riskText (config.checkMarket side quantity) := by
  have sided : side.isValid = true := by cases side <;> rfl
  rw [ReplayEngine.checkMarket, RiskConfig.checkMarket]
  simp only [isValidQuantity, sided, quantity_le_zero, quantity_pos, limitsOf, quantity_lt,
    Bool.not_true, Bool.false_eq_true, if_false, decide_not, Bool.not_not, decide_eq_true_eq]
  split
  · rfl
  split <;> rfl

end Risk

theorem checkLimitValues_none (config : RiskConfig) (price : Price) (quantity : Quantity) :
    ReplayEngine.checkLimitValues (limitsOf config) price.toInt quantity.toNat = none ↔
      config.checkLimitValues price quantity = .none := by
  rw [checkLimitValues_eq, RiskConfig.checkLimitValues]
  split
  · exact ⟨nofun, nofun⟩
  split
  · exact ⟨nofun, nofun⟩
  split
  · exact ⟨nofun, nofun⟩
  split
  · exact ⟨nofun, nofun⟩
  · exact ⟨fun _ => rfl, fun _ => rfl⟩

theorem checkMarket_none (config : RiskConfig) (side : Side) (quantity : Quantity) :
    ReplayEngine.checkMarket (limitsOf config) quantity.toNat = none ↔
      config.checkMarket side quantity = .none := by
  have sided : side.isValid = true := by cases side <;> rfl
  rw [checkMarket_eq config side, RiskConfig.checkMarket, sided]
  simp only [Bool.not_true, Bool.false_eq_true, if_false]
  split
  · exact ⟨nofun, nofun⟩
  split
  · exact ⟨nofun, nofun⟩
  · exact ⟨fun _ => rfl, fun _ => rfl⟩

section Step

/-- The oracle's book operation for a call. -/
def operate (b : ReplayEngine.Book) : BookOp → ReplayEngine.Book × List ReplayEngine.Trade
  | .addLimit id side price quantity tif =>
    ReplayEngine.addLimit b id.toNat side price.toInt quantity.toNat tif
  | .addMarket id side quantity => ReplayEngine.addMarket b id.toNat side quantity.toNat
  | .cancel id => ((ReplayEngine.cancel b id.toNat).1, [])
  | .modify id newPrice newQuantity =>
    ReplayEngine.modifyBook b id.toNat newPrice.toInt newQuantity.toNat

variable {b : ReplayEngine.Book} {book : Book}

theorem Mirrors.apply (mirrors : Mirrors b book) (valid : book.WellFormed) {op : BookOp}
    (admitted : book.admits op = true) :
    (operate b op).2 = (book.apply op).2.trades.map tradeOf ∧
      Mirrors (operate b op).1 (book.apply op).1 := by
  cases op with
  | addLimit id side price quantity tif =>
    rw [Book.admits, Bool.not_eq_true'] at admitted
    obtain ⟨b', done, after⟩ := mirrors.addLimit valid admitted side price quantity tif
    rw [operate, done]
    exact ⟨rfl, after⟩
  | addMarket id side quantity =>
    rw [Book.admits, Bool.not_eq_true'] at admitted
    obtain ⟨b', done, after⟩ := mirrors.addMarket valid admitted side quantity
    rw [operate, done]
    exact ⟨rfl, after⟩
  | cancel id =>
    rw [Book.admits] at admitted
    cases found : book.find? id with
    | none =>
      rw [Book.find?_eq_none.mp found] at admitted
      cases admitted
    | some order =>
      have after := mirrors.cancel valid found
      rw [operate, Book.apply, Book.cancel, admitted]
      exact ⟨rfl, after⟩
  | modify id newPrice newQuantity =>
    rw [Book.admits] at admitted
    obtain ⟨b', done, after⟩ := mirrors.modify valid admitted newPrice newQuantity
    rw [operate, done]
    exact ⟨rfl, after⟩

variable {st : ReplayEngine.State} {market : Market} {config : RiskConfig} {command : Command}
  {symbol : SymbolId} {op : BookOp}

theorem apply_unknown (targets : command.target = some (symbol, op))
    (unknown : st.books.find? symbol.toNat = none) :
    ReplayEngine.apply st (commandOf command) = st := by
  cases command with
  | registerSymbol name => cases targets
  | _ =>
    cases targets
    simp only [commandOf, ReplayEngine.apply, unknown]

/-- A check by text lets through what the verdict lets through. -/
theorem gated {α : Type} (check : Option String) (reason : RejectReason) (after before : α) :
    (check = none ↔ reason = .none) →
      (match check with
        | some _ => before
        | none => after) = if reason = .none then after else before := by
  intro same
  cases check with
  | none => rw [if_pos (same.mp rfl)]
  | some text => rw [if_neg (fun none => nomatch same.mpr none)]

/-- On a known symbol the oracle takes the command exactly when the gateway allows it. -/
theorem apply_known (targets : command.target = some (symbol, op))
    (limits : st.limits = limitsOf config) (mirrors : Mirrors b book)
    (found : st.books.find? symbol.toNat = some b) (known : market.books.find? symbol = some book) :
    ReplayEngine.apply st (commandOf command) =
      if market.verdict config command = .none then
        ReplayEngine.putTrades st symbol.toNat (operate b op)
      else st := by
  cases command with
  | registerSymbol name => cases targets
  | newLimit symbol id side price quantity tif =>
    cases targets
    simp only [commandOf, ReplayEngine.apply, found, mirrors.contains_eq, limits, Market.verdict,
      known, RiskConfig.checkLimit_side]
    cases book.contains id with
    | true => rfl
    | false =>
      simp only [Bool.false_eq_true, if_false]
      exact gated _ _ _ _ (checkLimitValues_none config price quantity)
  | newMarket symbol id side quantity =>
    cases targets
    simp only [commandOf, ReplayEngine.apply, found, mirrors.contains_eq, limits, Market.verdict,
      known]
    cases book.contains id with
    | true => rfl
    | false =>
      simp only [Bool.false_eq_true, if_false]
      exact gated _ _ _ _ (checkMarket_none config side quantity)
  | cancel symbol id =>
    cases targets
    simp only [commandOf, ReplayEngine.apply, found, mirrors.contains_eq, Market.verdict, known]
    cases book.contains id with
    | true =>
      have one : wrap (1 + ((0 : Nat) : Int)) = 1 := by decide
      simp only [Bool.not_true, Bool.false_eq_true, if_false, if_true, ReplayEngine.putTrades,
        operate, length_nil, one]
      rfl
    | false => rfl
  | modify symbol id price quantity =>
    cases targets
    simp only [commandOf, ReplayEngine.apply, found, mirrors.contains_eq, limits, Market.verdict,
      known, quantity_eq_zero]
    cases book.contains id with
    | false => rfl
    | true =>
      by_cases zero : quantity = 0
      · simp only [zero, if_true]
        rfl
      · simp only [zero, Bool.not_true, Bool.false_eq_true, if_false]
        exact gated _ _ _ _ (checkLimitValues_none config price quantity)

end Step

theorem symbol_lt (a b : SymbolId) : (a.toNat : Int) < b.toNat ↔ a < b := by
  rw [UInt32.lt_iff_toNat_lt, Int.ofNat_lt]

theorem symbol_injective : Function.Injective (fun symbol : SymbolId => (symbol.toNat : Int)) := by
  intro a b same
  exact UInt32.toNat_inj.mp (Int.ofNat_inj.mp same)

/-- Names and numbers the registry and the oracle agree on: ids are handed out from zero on,
and a book exists for each. -/
structure Registered (market : Market) : Prop where
  next : market.registry.next = UInt32.ofNat market.registry.ids.size
  interned : ∀ name id, market.registry.ids.find? name = some id →
    id.toNat < market.registry.ids.size
  books : ∀ symbol, market.books.contains symbol = true ↔
    symbol.toNat < market.registry.ids.size

/-- The oracle's state follows the market, on which `made` trades were made. -/
structure Tracks (config : RiskConfig) (st : ReplayEngine.State) (market : Market)
    (made : Nat) : Prop where
  limits : st.limits = limitsOf config
  names : st.names = market.registry.ids.mapValues (fun id => (id.toNat : Int))
  nextId : st.nextId = market.registry.ids.size
  books : OrderedMap.Related (fun symbol : SymbolId => (symbol.toNat : Int))
    (fun book b => Mirrors b book) market.books st.books
  seq : st.seq = wrap market.seq
  trades : st.trades = wrap made
  fewer : made ≤ market.seq
  registered : Registered market
  wellFormed : market.WellFormed

theorem wrap_zero : wrap 0 = 0 := by decide

theorem tracks_initial (config : RiskConfig) :
    Tracks config (ReplayEngine.initial (limitsOf config)) .empty 0 where
  limits := rfl
  names := rfl
  nextId := rfl
  books := related_empty
  seq := wrap_zero.symm
  trades := wrap_zero.symm
  fewer := Nat.le_refl _
  registered := by
    refine ⟨rfl, ?_, ?_⟩
    · intro name id found
      cases found
    · intro symbol
      exact ⟨nofun, nofun⟩
  wellFormed := Market.wellFormed_empty

section Track

variable {config : RiskConfig} {st : ReplayEngine.State} {market : Market} {made : Nat}

/-- Registering a known name changes nothing. -/
theorem Registered.again (registered : Registered market) {name : SymbolName} {id : SymbolId}
    (found : market.registry.ids.find? name = some id) : market.registerSymbol name = market := by
  have booked := (registered.books id).mpr (registered.interned name id found)
  simp only [Market.registerSymbol, SymbolRegistry.intern, found, booked, if_true]

/-- A new name takes the next number and an empty book. -/
theorem Registered.fresh (registered : Registered market) {name : SymbolName}
    (unknown : market.registry.ids.find? name = none)
    (room : market.registry.ids.size < 2 ^ 32) :
    market.registry.next.toNat = market.registry.ids.size ∧
      market.registerSymbol name =
        ⟨⟨market.registry.ids.insert name market.registry.next, market.registry.next + 1⟩,
          market.books.insert market.registry.next .empty, market.seq⟩ := by
  have number : market.registry.next.toNat = market.registry.ids.size := by
    rw [registered.next]
    exact UInt32.toNat_ofNat_of_lt' room
  have vacant : market.books.contains market.registry.next = false := by
    rw [← Bool.not_eq_true, registered.books, number]
    exact Nat.lt_irrefl _
  refine ⟨number, ?_⟩
  simp only [Market.registerSymbol, SymbolRegistry.intern, unknown, vacant, Bool.false_eq_true,
    if_false]

theorem Registered.register (registered : Registered market) (name : SymbolName)
    (room : (market.registerSymbol name).registry.ids.size ≤ 2 ^ 32) :
    Registered (market.registerSymbol name) := by
  cases found : market.registry.ids.find? name with
  | some id =>
    rw [registered.again found]
    exact registered
  | none =>
    have grown := size_insert found market.registry.next
    simp only [Market.registerSymbol, SymbolRegistry.intern, found, grown] at room
    obtain ⟨number, after⟩ := registered.fresh found room
    rw [after]
    refine ⟨?_, ?_, ?_⟩
    · show market.registry.next + 1 = UInt32.ofNat (market.registry.ids.insert name _).size
      rw [grown, registered.next, UInt32.ofNat_add]
      rfl
    · intro other id listed
      show id.toNat < (market.registry.ids.insert name market.registry.next).size
      rw [grown]
      rw [find?_insert] at listed
      split at listed
      · cases listed
        omega
      · have earlier := registered.interned other id listed
        omega
    · intro symbol
      have earlier := registered.books symbol
      show (market.books.insert market.registry.next _).contains symbol = true ↔
        symbol.toNat < (market.registry.ids.insert name market.registry.next).size
      rw [OrderedMap.contains, find?_insert, grown]
      rw [OrderedMap.contains] at earlier
      by_cases same : symbol = market.registry.next
      · rw [if_pos same, same, number]
        simp
      · have differ : symbol.toNat ≠ market.registry.ids.size := by
          rw [← number]
          exact fun equal => same (UInt32.toNat_inj.mp equal)
        rw [if_neg same, earlier]
        omega

theorem Tracks.register (tracks : Tracks config st market made) (name : SymbolName)
    (room : (market.registerSymbol name).registry.ids.size ≤ 2 ^ 32) :
    Tracks config (ReplayEngine.apply st (.reg name)) (market.registerSymbol name) made := by
  have listed := find?_mapValues (fun id : SymbolId => (id.toNat : Int))
    market.registry.ids name
  have registered := tracks.registered.register name room
  have wellFormed := tracks.wellFormed.registerSymbol name
  rw [← tracks.names] at listed
  rw [ReplayEngine.apply, listed]
  cases found : market.registry.ids.find? name with
  | some id =>
    rw [tracks.registered.again found]
    exact tracks
  | none =>
    have grown := size_insert found market.registry.next
    have room' := room
    simp only [Market.registerSymbol, SymbolRegistry.intern, found, grown] at room'
    obtain ⟨number, after⟩ := tracks.registered.fresh found room'
    have nextId : st.nextId = (market.registry.next.toNat : Int) := by
      rw [tracks.nextId, number]
    rw [after] at registered wellFormed ⊢
    refine ⟨tracks.limits, ?_, ?_, ?_, tracks.seq, tracks.trades, tracks.fewer, registered,
      wellFormed⟩
    · show st.names.insert name st.nextId = OrderedMap.mapValues _ (market.registry.ids.insert name _)
      rw [mapValues_insert, tracks.names, nextId]
    · show wrap (st.nextId + 1) = ((market.registry.ids.insert name _).size : Int)
      rw [grown, tracks.nextId]
      apply wrap_eq <;> omega
    · show OrderedMap.Related _ _ (market.books.insert market.registry.next .empty)
        (st.books.insert st.nextId ReplayEngine.emptyBook)
      rw [nextId]
      exact tracks.books.insert symbol_lt mirrors_empty

/-- An admitted call that the oracle mirrors on its book. -/
theorem Tracks.call (tracks : Tracks config st market made) {symbol : SymbolId} {op : BookOp}
    {book : Book} {b : ReplayEngine.Book} (known : market.books.find? symbol = some book)
    (admitted : book.admits op = true) (mirrors : Mirrors b book) :
    Tracks config (ReplayEngine.putTrades st symbol.toNat (operate b op))
      (market.call symbol op).1
      (made + (market.call symbol op).2.countP EngineEvent.isTrade) := by
  obtain ⟨trades, after⟩ := mirrors.apply (tracks.wellFormed symbol book known) admitted
  have wellFormed := tracks.wellFormed.call symbol op
  have count : (operate b op).2.length = (book.apply op).2.trades.length := by
    rw [trades, length_map]
  have fewer := tracks.fewer
  rw [Market.call_admitted known admitted] at wellFormed ⊢
  rw [countP_cons_of_neg (by simp [opening_isTrade]), tradeEvents_count]
  refine ⟨tracks.limits, tracks.names, tracks.nextId, ?_, ?_, ?_, ?_, ?_, wellFormed⟩
  · exact tracks.books.insert symbol_lt after
  · show wrap (st.seq + wrap (1 + (operate b op).2.length)) = _
    rw [tracks.seq, wrap_wrap_add, wrap_add_wrap, count]
    congr 1
    push_cast
    omega
  · show wrap (st.trades + (operate b op).2.length) = _
    rw [tracks.trades, wrap_wrap_add, count]
    congr 1
  · show made + _ ≤ market.seq + 1 + _
    omega
  · refine ⟨tracks.registered.next, tracks.registered.interned, ?_⟩
    intro other
    have earlier := tracks.registered.books other
    rw [OrderedMap.contains] at earlier ⊢
    show (OrderedMap.find? (market.books.insert symbol _) other).isSome = true ↔ _
    rw [find?_insert, ← earlier]
    split
    · rename_i same
      rw [same, known]
      simp
    · rfl

/-- One command: the oracle does what the gateway and the market do. -/
theorem Tracks.step (tracks : Tracks config st market made) (command : Command)
    (room : (market.submit config command).1.registry.ids.size ≤ 2 ^ 32) :
    Tracks config (ReplayEngine.apply st (commandOf command)) (market.submit config command).1
      (made + (market.submit config command).2.countP EngineEvent.isTrade) := by
  rcases market.apply_target command with ⟨name, rfl, _⟩ | ⟨symbol, op, targets, applied⟩
  · exact tracks.register name room
  · rw [Market.submit, applied]
    cases known : market.books.find? symbol with
    | none =>
      have unknown := tracks.books.find?_none symbol_injective known
      rw [apply_unknown targets unknown, Market.verdict_unknown targets known]
      exact tracks
    | some book =>
      obtain ⟨b, found, mirrors⟩ := tracks.books.find?_some symbol_injective known
      rw [apply_known targets tracks.limits mirrors found known]
      split
      · rename_i allowed
        exact tracks.call known (Market.verdict_admits targets known allowed) mirrors
      · exact tracks

/-- The registry only grows. -/
theorem names_submit (config : RiskConfig) (market : Market) (command : Command) :
    market.registry.ids.size ≤ (market.submit config command).1.registry.ids.size := by
  rw [Market.submit]
  split
  · rcases market.apply_target command with ⟨name, _, applied⟩ | ⟨symbol, op, _, applied⟩
    · rw [applied]
      simp only [Market.registerSymbol, SymbolRegistry.intern]
      cases found : market.registry.ids.find? name with
      | some id => exact Nat.le_refl _
      | none =>
        simp only [size_insert found]
        exact Nat.le_succ _
    · rw [applied]
      rcases market.call_cases symbol op with idle | ⟨book, known, admitted⟩
      · rw [idle]
      · rw [Market.call_admitted known admitted]
  · exact Nat.le_refl _

theorem names_submitAll (config : RiskConfig) (market : Market) (commands : List Command) :
    market.registry.ids.size ≤ (market.submitAll config commands).1.registry.ids.size := by
  induction commands generalizing market with
  | nil => exact Nat.le_refl _
  | cons command commands ih => exact Nat.le_trans (names_submit config market command) (ih _)

/-- The whole run: the oracle follows the market from command to command. -/
theorem Tracks.run (tracks : Tracks config st market made) (commands : List Command)
    (room : (market.submitAll config commands).1.registry.ids.size ≤ 2 ^ 32) :
    Tracks config ((commands.map commandOf).foldl ReplayEngine.apply st)
      (market.submitAll config commands).1
      (made + (market.submitAll config commands).2.countP EngineEvent.isTrade) := by
  induction commands generalizing st market made with
  | nil => exact tracks
  | cons command commands ih =>
    have later := names_submitAll config (market.submit config command).1 commands
    have followed := ih (tracks.step command (Nat.le_trans later room)) room
    rw [map_cons, foldl_cons]
    simp only [Market.submitAll, countP_append]
    rwa [Nat.add_assoc] at followed

end Track

/-- The snapshot of a state that follows the market. -/
theorem Tracks.snapshot_eq {config : RiskConfig} {st : ReplayEngine.State} {market : Market}
    {made : Nat} (tracks : Tracks config st market made) (seq : market.seq < 2 ^ 62)
    (totals : ∀ symbol side price, levelTotal (market.restingOrders symbol) side price < 2 ^ 62) :
    ReplayEngine.snapshot st =
      ⟨market.snapshot.lastSeq, made, market.snapshot.symbols.map symSnapshotOf⟩ := by
  have symbols := tracks.books.map_entries
    (f := fun symbol book => symSnapshotOf ⟨symbol, book.bestPrice .buy, book.bestPrice .sell,
      book.restingOrders.length, book.levelViews .buy, book.levelViews .sell⟩)
    (g := ReplayEngine.symSnapshot) (by
      intro symbol book b member mirrors
      have known := OrderedMap.find?_eq_some.mpr member
      refine (mirrors.snapshot_eq (tracks.wellFormed symbol book known) ?_ symbol).symm
      intro side price
      have small := totals symbol side price
      rw [Market.restingOrders, known] at small
      exact small)
  rw [ReplayEngine.snapshot, ReplayEngine.Snapshot.mk.injEq, tracks.seq, tracks.trades, ← symbols]
  refine ⟨wrap_eq (Int.natCast_nonneg _) ?_, wrap_eq (Int.natCast_nonneg _) ?_, ?_⟩
  · exact Int.ofNat_lt.mpr seq
  · exact Int.ofNat_lt.mpr (Nat.lt_of_le_of_lt tracks.fewer seq)
  · rw [Market.snapshot, map_map]
    rfl

/-- The counters of a run stay in the types of both sides: symbol ids in 32 bits, events and
level totals in the oracle's native integers. -/
structure InRange (engine : MatchingEngine) : Prop where
  symbols : engine.registry.ids.size ≤ 2 ^ 32
  seq : engine.seq < 2 ^ 62
  totals : ∀ symbol side price, levelTotal (engine.restingOrders symbol) side price < 2 ^ 62

/-- The oracle agrees with the engine. Whatever the risk limits and the commands, as long as
no counter overflows, the oracle's snapshot of its own replay is the snapshot of a fresh
baseline engine behind the gateway, with the number of its trade events. -/
theorem snapshot_replay (config : RiskConfig) (commands : List Command)
    (inRange : InRange (submitAll config (.new .baseline) commands).1) :
    let run := submitAll config (.new .baseline) commands
    ReplayEngine.snapshot (ReplayEngine.replay (limitsOf config) (commands.map commandOf)) =
      ⟨run.1.snapshot.lastSeq, run.2.2.countP EngineEvent.isTrade,
        run.1.snapshot.symbols.map symSnapshotOf⟩ := by
  have fresh : (MatchingEngine.new .baseline).Unlimited :=
    ⟨rfl, fun symbol book found => by cases found⟩
  obtain ⟨kept, ran⟩ :=
    submitAll_unlimited config (MatchingEngine.valid_new .baseline) fresh commands
  have ran' : Market.empty.submitAll config commands = _ := ran
  have room : (Market.empty.submitAll config commands).1.registry.ids.size ≤ 2 ^ 32 := by
    rw [ran']
    exact inRange.symbols
  have tracks := (tracks_initial config).run commands room
  rw [ran', Nat.zero_add] at tracks
  simp only [ReplayEngine.replay, kept.snapshot_eq]
  apply tracks.snapshot_eq inRange.seq
  intro symbol side price
  rw [← kept.restingOrders_eq]
  exact inRange.totals symbol side price

/-- A sell order of five of which a buy order takes three. -/
theorem snapshot_replay_trade :
    let commands := [.registerSymbol [65], .newLimit 0 1 .sell 100 5 .gtc,
      .newLimit 0 2 .buy 100 3 .gtc]
    let run := submitAll ⟨10, 10000⟩ (.new .baseline) commands
    ReplayEngine.snapshot (ReplayEngine.replay (limitsOf ⟨10, 10000⟩) (commands.map commandOf)) =
      ⟨run.1.snapshot.lastSeq, run.2.2.countP EngineEvent.isTrade,
        run.1.snapshot.symbols.map symSnapshotOf⟩ := by
  refine snapshot_replay ⟨10, 10000⟩ _ ⟨by decide +kernel, by decide +kernel, ?_⟩
  intro symbol side price
  refine Nat.lt_of_le_of_lt (levelTotal_le _ side price) ?_
  by_cases zero : symbol = 0
  · rw [zero]
    decide +kernel
  · have keys : (submitAll ⟨10, 10000⟩ (.new .baseline) [.registerSymbol [65],
        .newLimit 0 1 .sell 100 5 .gtc, .newLimit 0 2 .buy 100 3 .gtc]).1.books.keys = [0] := by
      decide +kernel
    have absent : symbol ∉ _ := keys ▸ mem_singleton.not.mpr zero
    rw [MatchingEngine.restingOrders, MatchingEngine.findBook, OrderedMap.find?_eq_none.mpr absent]
    decide

end Qsl.Oracle
