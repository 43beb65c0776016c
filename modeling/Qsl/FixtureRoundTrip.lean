import Qsl.FixtureParsing
import Qsl.BookRestore
import Qsl.RiskInvariant

namespace Qsl

open List

variable {count : Nat}

section Counts

/-- No book holds more orders than there were events. -/
def Market.Counted (market : Market) : Prop :=
  ∀ symbol book, market.books.find? symbol = some book → book.restingOrders.length ≤ market.seq

/-- A call adds at most the order it submits. -/
theorem Book.WellFormed.apply_length {book : Book} {op : BookOp} (valid : book.WellFormed)
    (admitted : book.admits op = true) :
    (book.apply op).1.restingOrders.length ≤ book.restingOrders.length + 1 := by
  have inside : (book.apply op).1.restingOrders.map Order.id ⊆
      op.id :: book.restingOrders.map Order.id := by
    intro id member
    obtain ⟨order, resting, rfl⟩ := mem_map.mp member
    rcases valid.apply_source admitted order resting with ⟨-, source, among, tags, -⟩ | ⟨own, -, -⟩
    · have same : source.id = order.id := congrArg Prod.fst tags
      rw [← same]
      exact mem_cons_of_mem _ (mem_map_of_mem among)
    · rw [own]
      exact mem_cons_self
  have bound := (subperm_of_subset (valid.apply op).unique inside).length_le
  rwa [length_cons, length_map, length_map] at bound

theorem Market.Counted.apply {market : Market} (counted : market.Counted)
    (valid : market.WellFormed) (command : Command) : (market.apply command).1.Counted := by
  rcases market.apply_target command with ⟨name, _, applied⟩ | ⟨symbol, op, targets, _⟩
  · rw [applied]
    intro symbol book found
    rcases market.registerSymbol_find? name symbol with same | ⟨_, fresh⟩
    · exact counted symbol book (same.symm.trans found)
    · cases fresh.symm.trans found
      exact Nat.zero_le _
  · rcases market.apply_events targets with idle | ⟨book, known, admitted, done⟩
    · rw [idle]
      exact counted
    · rw [done]
      intro other after found
      have before := counted symbol book known
      rw [OrderedMap.find?_insert] at found
      split at found
      · cases found
        have longer := (valid symbol book known).apply_length admitted
        exact Nat.le_trans longer
          (Nat.le_trans (Nat.add_le_add_right before 1) (Nat.le_add_right _ _))
      · exact Nat.le_trans (counted other after found)
          (Nat.le_trans (Nat.le_add_right _ 1) (Nat.le_add_right _ _))

theorem counted_run (storage : Storage) (config : RiskConfig) (commands : List Command) :
    (Machine.run (Market.exchange storage config) Market.empty commands).1.WellFormed ∧
      (Machine.run (Market.exchange storage config) Market.empty commands).1.Counted := by
  refine Machine.run_invariant (Market.exchange storage config)
    (fun market => market.WellFormed ∧ market.Counted) ?_
    ⟨Market.wellFormed_empty, fun symbol book found => by cases found⟩ commands
  rintro market command ⟨valid, counted⟩
  rcases market.exchange_cases storage config command with
    ⟨reason, _, rejected⟩ | ⟨_, _, applied⟩
  · rw [rejected]
    exact ⟨valid, counted⟩
  · rw [applied]
    exact ⟨valid.apply command, counted.apply valid command⟩

/-- Every trade takes a sequence number. -/
theorem tradeCount_le (storage : Storage) (config : RiskConfig) (commands : List Command) :
    let run := Machine.run (applyCommand config) (MatchingEngine.new storage) commands
    tradeCount run.2 ≤ run.1.seq := by
  intro run
  have whole : tradeCount run.2 = (run.2.flatMap GatewayResult.events).countP EngineEvent.isTrade :=
    (countP_flatMap ..).symm
  have counted : run.1.seq = 0 + (run.2.flatMap GatewayResult.events).length :=
    (emits_exchange storage config commands).counted
  rw [whole, counted, Nat.zero_add]
  exact countP_le_length

end Counts

namespace StreamFixture

open TextLines (Text text space newline unwords)
open NativeInt (Fits)
open Oracle (commandOf limitsOf levelViewOf symSnapshotOf)

/-- The symbol names of a flow are single words; its ids, its prices and the notional limit are
integers that the oracle has. -/
structure Expressible (p : FixtureParams) (flow : List Command) : Prop where
  names : ∀ name ∈ flow.filterMap Command.name?, name ≠ [] ∧ space ∉ name ∧ newline ∉ name
  ids : ∀ id ∈ flow.filterMap Command.id?, id.toNat < 2 ^ 62
  prices : ∀ price ∈ flow.filterMap Command.price?, Fits price.toInt
  maxNotional : p.maxNotional.toNat < 2 ^ 62

theorem Expressible.speakable {p : FixtureParams} {flow : List Command}
    (expressible : Expressible p flow) : ∀ command ∈ flow, Speakable command := by
  intro command member
  refine ⟨?_, ?_, ?_⟩
  · exact fun name found => expressible.names name (mem_filterMap.mpr ⟨command, member, found⟩)
  · exact fun id found => expressible.ids id (mem_filterMap.mpr ⟨command, member, found⟩)
  · exact fun price found =>
      expressible.prices price (mem_filterMap.mpr ⟨command, member, found⟩)

/-- The counters of a snapshot are integers that the oracle has. -/
structure NativeCounts (snap : EngineSnapshot) : Prop where
  lastSeq : snap.lastSeq < 2 ^ 62
  totals : ∀ s ∈ snap.symbols, ∀ lv ∈ s.bids ++ s.asks, lv.quantity.toNat < 2 ^ 62

/-- A price that passed the risk check is below the notional limit. -/
theorem fits_within {config : RiskConfig} {price : Price} {quantity : Quantity}
    (within : config.Within price quantity) (small : config.maxNotional.toNat < 2 ^ 62) :
    Fits price.toInt := by
  have sign := within.positivePrice
  have alive := within.positiveQuantity
  have below : price.toInt * 1 ≤ price.toInt * quantity.toNat :=
    Int.mul_le_mul_of_nonneg_left (by omega) (by omega)
  have limit := within.notional
  exact ⟨by omega, by omega⟩

section Book

variable {config : RiskConfig} {book : Book}
  (within : ∀ order ∈ book.restingOrders, config.Within order.price order.quantity)
  (small : config.maxNotional.toNat < 2 ^ 62)

include within small

theorem bestPrice_fits (side : Side) : ∀ price ∈ book.bestPrice side, Fits price.toInt := by
  intro price best
  obtain ⟨order, first, rfl⟩ := Option.map_eq_some_iff.mp best
  have resting := Book.mem_restingOrders.mpr ⟨side, mem_of_head? first⟩
  exact fits_within (within order resting) small

theorem levelViews_fit (side : Side) : ∀ lv ∈ book.levelViews side, Fits lv.price.toInt := by
  intro lv member
  obtain ⟨price, listed, rfl⟩ := mem_map.mp member
  obtain ⟨order, inside, rfl⟩ := mem_map.mp (mem_dedup.mp listed)
  exact fits_within (within order (Book.mem_restingOrders.mpr ⟨side, inside⟩)) small

end Book

section RoundTrip

variable {p : FixtureParams} {flow : List Command}

/-- Everything a symbol of the final snapshot shows is an integer of the oracle, as soon as the
counters are. -/
theorem symbolFits_run (small : p.maxNotional.toNat < 2 ^ 62)
    (native : NativeCounts (Machine.run (applyCommand p.risk) (.new .baseline) flow).1.snapshot) :
    ∀ s ∈ (Machine.run (applyCommand p.risk) (.new .baseline) flow).1.snapshot.symbols,
      SymbolFits s := by
  obtain ⟨sound, ran⟩ := MatchingEngine.exchange_run .baseline p.risk flow
  have within := withinRisk_run .baseline p.risk flow
  obtain ⟨-, counted⟩ := counted_run .baseline p.risk flow
  rw [ran] at within counted
  rw [sound.valid.snapshot_eq] at native ⊢
  generalize (Machine.run (applyCommand p.risk) (.new .baseline) flow).1.view = market at *
  intro s member
  obtain ⟨lastSeq, totals⟩ := native
  have levels := totals s member
  obtain ⟨⟨symbol, book⟩, entry, rfl⟩ := mem_map.mp member
  have known := OrderedMap.find?_eq_some.mpr entry
  have risk := within symbol book known
  refine ⟨bestPrice_fits risk small .buy, bestPrice_fits risk small .sell,
    Nat.lt_of_le_of_lt (counted symbol book known) lastSeq, ?_, ?_⟩
  · exact fun lv inside => ⟨levelViews_fit risk small .buy lv inside,
      levels lv (mem_append_left _ inside)⟩
  · exact fun lv inside => ⟨levelViews_fit risk small .sell lv inside,
      levels lv (mem_append_right _ inside)⟩

/-- The lines of the snapshot section, as the oracle tells them apart. -/
theorem filter_snapshotLines
    (blanks : ∀ tokens ∈ fixtureWords p flow, ∀ token ∈ tokens, token ≠ [] ∧ space ∉ token) :
    ((fixtureWords p flow).map (unwords space)).filter isSnapshotLine =
      ((fixtureWords p flow).filter isSnapshotWords).map (unwords space) := by
  rw [filter_map]
  refine congrArg (List.map _) (filter_congr ?_)
  intro tokens member
  rw [Function.comp_apply, isSnapshotLine, StreamParser.words,
    TextLines.words_unwords (blanks tokens member)]

/-- A fixture is read back by the oracle. Whatever flow was written, as long as its names are
words and its numbers and the counters of the final snapshot are integers of the oracle, the
parser finds the limits, the commands and the snapshot, and the oracle prints the snapshot in the
lines that were written. -/
theorem fixture_round_trip (p : FixtureParams) (flow : List Command)
    (expressible : Expressible p flow)
    (native : NativeCounts (Machine.run (applyCommand p.risk) (.new .baseline) flow).1.snapshot) :
    let snap := (Machine.run (applyCommand p.risk) (.new .baseline) flow).1.snapshot
    let lines := TextLines.inputLines newline (runAndEmit p flow)
    let parsed : ReplayEngine.Snapshot :=
      ⟨snap.lastSeq, countTrades flow p.maxQty p.maxNotional, snap.symbols.map symSnapshotOf⟩
    StreamParser.parseFullLines lines = .ok (limitsOf p.risk, flow.map commandOf, parsed) ∧
      ReplayEngine.snapshotToLines parsed = lines.filter isSnapshotLine := by
  have blanks := fixtureWords_blanks (p := p) expressible.names
  have trades := tradeCount_le .baseline p.risk flow
  have symbols := symbolFits_run expressible.maxNotional native
  have commands := fixtureWords_commands expressible.speakable expressible.maxNotional
  have snapshot := (@fixtureWords_snapshot p flow ⟨0, 0, []⟩).trans
    (snapshotWords_read native.lastSeq (Nat.lt_of_le_of_lt trades native.lastSeq) symbols)
  intro snap lines parsed
  have read : lines = (fixtureWords p flow).map (unwords space) :=
    inputLines_runAndEmit expressible.names
  constructor
  · rw [read, StreamParser.parseFullLines, StreamParser.parseLines]
    simp only [StreamParser.words, TextLines.foldlM_words blanks, commands, snapshot]
    show Except.ok _ = _
    simp only [reverse_reverse]
    rfl
  · rw [read, filter_snapshotLines blanks, fixtureWords_report, snapshotWords_lines]

/-- A trade, and what is left of the maker. -/
theorem fixture_round_trip_trade :
    let p : FixtureParams := ⟨42, 1, 2, 10, 10000⟩
    let flow := [.registerSymbol [65], .newLimit 0 1 .sell 100 5 .gtc,
      .newLimit 0 2 .buy 100 3 .gtc]
    StreamParser.parseFullLines (TextLines.inputLines newline (runAndEmit p flow)) =
      .ok (⟨10, 10000⟩, [.reg [65], .limit 0 1 .sell 100 5 .gtc, .limit 0 2 .buy 100 3 .gtc],
        ⟨3, 1, [⟨0, none, some 100, 1, [], [⟨100, 2⟩]⟩]⟩) := by
  intro p flow
  have expressible : Expressible p flow := by
    refine ⟨?_, ?_, ?_, by decide⟩
    · exact forall_mem_singleton.mpr (by decide)
    · show ∀ id ∈ [(1 : OrderId), 2], id.toNat < 2 ^ 62
      exact forall_mem_cons.mpr ⟨by decide, forall_mem_singleton.mpr (by decide)⟩
    · show ∀ price ∈ [(100 : Price), 100], Fits price.toInt
      exact forall_mem_cons.mpr ⟨by decide, forall_mem_singleton.mpr (by decide)⟩
  have native : NativeCounts
      (Machine.run (applyCommand p.risk) (.new .baseline) flow).1.snapshot :=
    ⟨by decide +kernel, by decide +kernel⟩
  refine (fixture_round_trip p flow expressible native).1.trans (congrArg Except.ok ?_)
  decide +kernel

/- The other way round: what the parser accepts has native counters. -/

theorem intOf_print_large {n : Nat} (large : 2 ^ 62 ≤ n) (value : Int) :
    StreamParser.intOf (Decimal.print n) ≠ .ok value := by
  have outside : ¬ Fits n := fun fits => absurd fits.2 (by omega)
  rw [StreamParser.intOf, NativeInt.intOfString?_numeral (Decimal.numeral_print n),
    if_neg outside]
  exact fun same => by cases same

theorem bind_stuck {α β : Type} {first : Except Text α} {next : α → Except Text β}
    (stuck : ∀ value result, first = .ok value → next value ≠ .ok result) (result : β) :
    first >>= next ≠ .ok result := by
  cases shape : first with
  | error reason => exact fun same => by cases same
  | ok value => exact stuck value result shape

/-- A level total that is no native integer stops the parser at its line. -/
theorem levelWords_stuck {lv : LevelView} (large : 2 ^ 62 ≤ lv.quantity.toNat) (symbol : SymbolId)
    (side : String) (pass pass' : StreamParser.SnapshotPass) :
    StreamParser.handleSnapshot pass (levelWords symbol side lv) ≠ .ok pass' := by
  rw [levelWords, StreamParser.handleSnapshot, if_neg (fun all => absurd all.1 (by decide)),
    if_pos rfl, StreamParser.handleLevel]
  refine bind_stuck ?_ pass'
  intro levelSym result _
  split
  · exact fun same => by cases same
  split
  · exact fun same => by cases same
  · refine bind_stuck ?_ result
    intro qty result read
    exact absurd read (intOf_print_large large qty)

theorem snapshotWords_stuck {snap : EngineSnapshot} {trades : Nat}
    {pass pass' : StreamParser.SnapshotPass}
    (read : (snapshotWords snap trades).foldlM StreamParser.handleSnapshot pass = .ok pass') :
    NativeCounts snap := by
  constructor
  · by_contra large
    refine TextLines.foldlM_stuck mem_cons_self ?_ pass pass' read
    intro state state'
    simp only [StreamParser.handleSnapshot, and_self, if_true]
    refine bind_stuck ?_ state'
    intro value result same
    exact absurd same (intOf_print_large (Nat.not_lt.mp large) value)
  · intro s member lv inside
    by_contra large
    have stuck := levelWords_stuck (Nat.not_lt.mp large) s.symbol
    have behind : ∀ tokens ∈ symbolWords s, tokens ∈ snapshotWords snap trades :=
      fun tokens among => mem_cons_of_mem _ (mem_flatMap.mpr ⟨s, member, among⟩)
    rcases mem_append.mp inside with bid | ask
    · refine TextLines.foldlM_stuck (behind _ (mem_cons_of_mem _
        (mem_append_left _ (mem_map_of_mem bid)))) (stuck "B") pass pass' read
    · refine TextLines.foldlM_stuck (behind _ (mem_cons_of_mem _
        (mem_append_right _ (mem_map_of_mem ask)))) (stuck "A") pass pass' read

/-- The condition on the counters is needed. -/
theorem native_of_parse (named : ∀ name ∈ flow.filterMap Command.name?, Proper name)
    {result : ReplayEngine.Limits × List ReplayEngine.Command × ReplayEngine.Snapshot}
    (parsed : StreamParser.parseFullLines (TextLines.inputLines newline (runAndEmit p flow)) =
      .ok result) :
    NativeCounts (Machine.run (applyCommand p.risk) (.new .baseline) flow).1.snapshot := by
  by_contra wide
  revert parsed
  rw [inputLines_runAndEmit named, StreamParser.parseFullLines]
  refine bind_stuck ?_ result
  intro commands result _
  simp only [StreamParser.words, TextLines.foldlM_words (fixtureWords_blanks named),
    fixtureWords_snapshot]
  refine bind_stuck ?_ result
  intro pass result read
  exact absurd (snapshotWords_stuck read) wide

end RoundTrip

/- A level of 2^30 + 1 orders of the largest quantity: its total is beyond 2^62. -/
section Crowd

def crowdOrder (i : Nat) : Order := ⟨UInt64.ofNat i, .buy, 1, 4294967295⟩

/-- So many buy orders at one price. -/
def crowd (count : Nat) : List Command :=
  .registerSymbol [65] ::
    (List.range count).map (fun i => .newLimit 0 (UInt64.ofNat i) .buy 1 4294967295 .gtc)

def crowdParams : FixtureParams := ⟨0, 1, 0, 4294967295, 4294967295⟩

def crowdBook (count : Nat) : Book := ⟨(List.range count).map crowdOrder, []⟩

theorem crowdBook_wellFormed (small : count ≤ 2 ^ 62) :
    (crowdBook count).WellFormed where
  sided := by
    intro side order member
    cases side with
    | buy =>
      obtain ⟨i, -, rfl⟩ := mem_map.mp member
      rfl
    | sell => cases member
  positive := by
    intro side order member
    cases side with
    | buy =>
      obtain ⟨i, -, rfl⟩ := mem_map.mp member
      exact (by decide : (0 : Quantity) < 4294967295)
    | sell => cases member
  sorted := by
    intro side
    cases side with
    | buy =>
      refine pairwise_map.mpr (pairwise_of_forall ?_)
      intro i j
      exact (by decide : ¬ (1 : Price) < 1)
    | sell => exact List.Pairwise.nil
  unique := by
    rw [Book.restingOrders, crowdBook, append_nil, map_map]
    refine List.Nodup.map_on ?_ nodup_range
    intro i inside j inside' same
    rw [mem_range] at inside inside'
    have values := congrArg UInt64.toNat same
    simp only [Function.comp_apply, crowdOrder] at values
    rwa [UInt64.toNat_ofNat_of_lt' (by change i < 2 ^ 64; omega),
      UInt64.toNat_ofNat_of_lt' (by change j < 2 ^ 64; omega)] at values
  uncrossed := by
    intro bid _ ask member
    cases member

theorem crowdBook_succ (count : Nat) :
    crowdBook (count + 1) = (crowdBook count).snoc (crowdOrder count) := by
  rw [crowdBook, range_succ, map_append]
  rfl

/-- Every order of the crowd is accepted and rests. -/
theorem crowd_book (count : Nat) (small : count ≤ 2 ^ 62) :
    (Machine.run (Market.exchange .baseline crowdParams.risk) Market.empty
      (crowd count)).1.books.find? 0 = some (crowdBook count) := by
  induction count with
  | zero => rfl
  | succ count ih =>
    have known := ih (Nat.le_of_succ_le small)
    have valid := crowdBook_wellFormed small
    rw [crowdBook_succ] at valid ⊢
    have longer : crowd (count + 1) = crowd count ++
        [.newLimit 0 (UInt64.ofNat count) .buy 1 4294967295 .gtc] := by
      rw [crowd, range_succ, map_append]
      rfl
    rw [longer, Machine.run_append]
    generalize (Machine.run (Market.exchange .baseline crowdParams.risk) Market.empty
      (crowd count)).1 = market at known
    have fresh : (crowdBook count).contains (UInt64.ofNat count) = false := valid.snoc_fresh
    have allowed : market.verdict crowdParams.risk
        (.newLimit 0 (UInt64.ofNat count) .buy 1 4294967295 .gtc) = .none := by
      simp only [Market.verdict, known, fresh, Bool.false_eq_true, if_false]
      decide
    have room : market.rooms .baseline
        (.newLimit 0 (UInt64.ofNat count) .buy 1 4294967295 .gtc) = true := by
      rw [Market.rooms, Command.target]
      simp only [known]
      rfl
    have admitted : (crowdBook count).admits (crowdOrder count).restore = true := by
      show (!(crowdBook count).contains (UInt64.ofNat count)) = true
      rw [fresh]
      rfl
    have applied : market.apply (.newLimit 0 (UInt64.ofNat count) .buy 1 4294967295 .gtc) = _ :=
      (Market.apply_eq_call rfl).trans (Market.call_admitted known admitted)
    rw [valid.restore_last] at applied
    show (market.exchange .baseline crowdParams.risk _).1.books.find? 0 = _
    rw [Market.exchange, allowed, room, applied]
    show (OrderedMap.insert _ 0 _).find? 0 = _
    rw [OrderedMap.find?_insert, if_pos rfl]

/-- The total of the level the crowd rests in. -/
theorem crowd_total (small : count ≤ 2 ^ 31) :
    ((crowdBook count).quantityAt .buy 1).toNat = count * 4294967295 := by
  have all : (crowdBook count).bids.filter (fun order => order.price = 1) =
      (List.range count).map crowdOrder := by
    refine filter_eq_self.mpr ?_
    intro order member
    obtain ⟨i, -, rfl⟩ := mem_map.mp member
    rfl
  have each : ((List.range count).map crowdOrder).map (fun order => order.quantity.toNat) =
      List.replicate count 4294967295 := by
    rw [map_map]
    refine eq_replicate_iff.mpr ⟨by simp, ?_⟩
    intro quantity member
    obtain ⟨i, -, rfl⟩ := mem_map.mp member
    rfl
  have few : ((List.range count).map crowdOrder).length < 2 ^ 32 := by
    rw [length_map, length_range]
    omega
  rw [Book.quantityAt, Book.side, all, totalQuantity_toNat _ few, each, sum_replicate_nat]

theorem crowd_field {ν : Type} {field : Command → Option ν} {value : ν}
    (member : value ∈ (crowd count).filterMap field) :
    field (.registerSymbol [65]) = some value ∨
      ∃ i < count, field (.newLimit 0 (UInt64.ofNat i) .buy 1 4294967295 .gtc) = some value := by
  obtain ⟨command, listed, found⟩ := mem_filterMap.mp member
  rcases mem_cons.mp listed with rfl | order
  · exact Or.inl found
  · obtain ⟨i, inside, rfl⟩ := mem_map.mp order
    exact Or.inr ⟨i, mem_range.mp inside, found⟩

/-- Its names, ids and prices are small. -/
theorem crowd_expressible (count : Nat) (small : count ≤ 2 ^ 62) :
    Expressible crowdParams (crowd count) := by
  refine ⟨?_, ?_, ?_, by decide⟩
  · intro name member
    rcases crowd_field member with named | ⟨i, -, named⟩
    · cases named
      decide
    · cases named
  · intro id member
    rcases crowd_field member with numbered | ⟨i, below, numbered⟩
    · cases numbered
    · cases numbered
      rw [UInt64.toNat_ofNat_of_lt' (by change i < 2 ^ 64; omega)]
      omega
  · intro price member
    rcases crowd_field member with priced | ⟨i, -, priced⟩
    · cases priced
    · cases priced
      decide

theorem crowd_wide (size : count = 2 ^ 30 + 1) :
    ¬ NativeCounts (Machine.run (applyCommand crowdParams.risk) (.new .baseline)
      (crowd count)).1.snapshot := by
  intro native
  obtain ⟨sound, ran⟩ := MatchingEngine.exchange_run .baseline crowdParams.risk (crowd count)
  have known := crowd_book count (by omega)
  rw [ran] at known
  rw [sound.valid.snapshot_eq] at native
  have shown : (⟨1, (crowdBook count).quantityAt .buy 1⟩ : LevelView) ∈
      (crowdBook count).levelViews .buy := by
    refine mem_map.mpr ⟨1, mem_dedup.mpr (mem_map.mpr ⟨crowdOrder 0, ?_, rfl⟩), rfl⟩
    exact mem_map.mpr ⟨0, mem_range.mpr (by omega), rfl⟩
  have total := native.totals _ (mem_map_of_mem (OrderedMap.find?_eq_some.mp known)) _
    (mem_append_left _ shown)
  rw [crowd_total (by omega)] at total
  omega

end Crowd

/-- The total of a level does not fit the oracle's integers although every number of the flow
does: the parser gives up at the level line. -/
theorem fixture_total_unreadable :
    Expressible crowdParams (crowd (2 ^ 30 + 1)) ∧
      ∀ result, StreamParser.parseFullLines
        (TextLines.inputLines newline (runAndEmit crowdParams (crowd (2 ^ 30 + 1)))) ≠
          .ok result := by
  have expressible := crowd_expressible (2 ^ 30 + 1) (by omega)
  exact ⟨expressible, fun result parsed =>
    crowd_wide rfl (native_of_parse expressible.names parsed)⟩

end StreamFixture

end Qsl
