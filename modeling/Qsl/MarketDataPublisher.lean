import Qsl.EventStream

namespace Qsl

open List

variable {symbol : SymbolId}

/-- A top of book as the publisher remembers it. -/
structure Tob where
  bid : Option Price
  ask : Option Price
  deriving DecidableEq, Repr

/-- The top of an empty book. -/
def Tob.empty : Tob := ⟨none, none⟩

theorem Tob.isSome_iff (tob : Tob) : (tob.bid.isSome || tob.ask.isSome) = true ↔ tob ≠ .empty := by
  rcases tob with ⟨_ | bid, _ | ask⟩ <;> simp [Tob.empty]

inductive MarketDataMessage where
  | mdTrade (mdSeq : SeqNo) (symbol : SymbolId) (price : Price) (quantity : Quantity)
  | mdTopOfBook (mdSeq : SeqNo) (symbol : SymbolId) (bestBid bestAsk : Option Price)
  deriving DecidableEq, Repr

namespace MarketDataMessage

def mdSeqOf : MarketDataMessage → SeqNo
  | .mdTrade mdSeq .. => mdSeq
  | .mdTopOfBook mdSeq .. => mdSeq

def isTrade : MarketDataMessage → Bool
  | .mdTrade .. => true
  | .mdTopOfBook .. => false

/-- What a trade message tells. -/
def trade? : MarketDataMessage → Option (SymbolId × Price × Quantity)
  | .mdTrade _ symbol price quantity => some (symbol, price, quantity)
  | .mdTopOfBook .. => none

/-- What a message tells about the top of one symbol. -/
def top? (symbol : SymbolId) : MarketDataMessage → Option Tob
  | .mdTrade .. => none
  | .mdTopOfBook _ other bestBid bestAsk => if other = symbol then some ⟨bestBid, bestAsk⟩ else none

end MarketDataMessage

/-- What an engine event is worth as a trade message. -/
def EngineEvent.fill? : EngineEvent → Option (SymbolId × Price × Quantity)
  | .tradeEvent _ symbol _ _ price quantity => some (symbol, price, quantity)
  | _ => none

def MatchingEngine.tob (engine : MatchingEngine) (symbol : SymbolId) : Tob :=
  ⟨engine.bestBid symbol, engine.bestAsk symbol⟩

structure MarketDataPublisher where
  lastTob : OrderedMap SymbolId Tob (· < ·)
  mdSeq : SeqNo

namespace MarketDataPublisher

def new : MarketDataPublisher := ⟨.empty, 0⟩

/-- The loop over the events: a message per trade, and the symbols in the order of their first
appearance. -/
def scan : List EngineEvent → List SymbolId → SeqNo →
    List SymbolId × SeqNo × List MarketDataMessage
  | [], touched, mdSeq => (touched, mdSeq, [])
  | event :: events, touched, mdSeq =>
    let symbol := event.symbolOf
    let (nextSeq, emitted) := match event with
      | .tradeEvent _ _ _ _ price quantity =>
        (mdSeq + 1, [MarketDataMessage.mdTrade (mdSeq + 1) symbol price quantity])
      | _ => (mdSeq, [])
    let next := if symbol ∈ touched then touched else touched ++ [symbol]
    let (all, last, messages) := scan events next nextSeq
    (all, last, emitted ++ messages)

/-- The body of the loop over the touched symbols. -/
def publishTop (publisher : MarketDataPublisher) (engine : MatchingEngine) (symbol : SymbolId) :
    MarketDataPublisher × List MarketDataMessage :=
  let current : Tob := ⟨engine.bestBid symbol, engine.bestAsk symbol⟩
  let message := MarketDataMessage.mdTopOfBook (publisher.mdSeq + 1) symbol current.bid current.ask
  match publisher.lastTob.find? symbol with
  | none =>
    let remembered := publisher.lastTob.insert symbol current
    if current.bid.isSome || current.ask.isSome then
      (⟨remembered, publisher.mdSeq + 1⟩, [message])
    else (⟨remembered, publisher.mdSeq⟩, [])
  | some last =>
    if last ≠ current then
      (⟨publisher.lastTob.insert symbol current, publisher.mdSeq + 1⟩, [message])
    else (publisher, [])

def publishTops (engine : MatchingEngine) :
    MarketDataPublisher → List SymbolId → MarketDataPublisher × List MarketDataMessage
  | publisher, [] => (publisher, [])
  | publisher, symbol :: symbols =>
    let (next, emitted) := publisher.publishTop engine symbol
    let (final, messages) := publishTops engine next symbols
    (final, emitted ++ messages)

def publish (publisher : MarketDataPublisher) (engine : MatchingEngine)
    (events : List EngineEvent) : MarketDataPublisher × List MarketDataMessage :=
  let (touched, mdSeq, trades) := scan events [] publisher.mdSeq
  let (final, tops) := publishTops engine { publisher with mdSeq := mdSeq } touched
  (final, trades ++ tops)

/-- One command to the engine, and its events to the publisher. -/
def step (state : MatchingEngine × MarketDataPublisher) (command : Command) :
    (MatchingEngine × MarketDataPublisher) × List MarketDataMessage :=
  let (engine, events) := state.1.apply command
  let (publisher, messages) := state.2.publish engine events
  ((engine, publisher), messages)

/-- The top the publisher takes for told. -/
def cached (publisher : MarketDataPublisher) (symbol : SymbolId) : Tob :=
  (publisher.lastTob.find? symbol).getD .empty

/-- The tops told of a symbol, after the empty one that goes without saying. -/
def told (symbol : SymbolId) (feed : List MarketDataMessage) : List Tob :=
  .empty :: feed.filterMap (MarketDataMessage.top? symbol)

theorem told_append (symbol : SymbolId) (first second : List MarketDataMessage) :
    told symbol (first ++ second) =
      told symbol first ++ second.filterMap (MarketDataMessage.top? symbol) := by
  rw [told, filterMap_append, told, cons_append]

/-- The publisher remembers what it has told, never told a top twice in a row and counts its
messages. -/
structure Told (publisher : MarketDataPublisher) (feed : List MarketDataMessage) : Prop where
  last : ∀ symbol, (told symbol feed).getLast? = some (publisher.cached symbol)
  differ : ∀ symbol, (told symbol feed).IsChain (· ≠ ·)
  numbered : feed.map MarketDataMessage.mdSeqOf = List.range' 1 feed.length
  counted : publisher.mdSeq = feed.length

variable {publisher : MarketDataPublisher} {feed : List MarketDataMessage}
  {engine : MatchingEngine}

theorem told_new : Told new [] where
  last := fun _ => rfl
  differ := fun _ => isChain_singleton _
  numbered := rfl
  counted := rfl

/-- One more message, numbered on. -/
theorem numbered_snoc {message : MarketDataMessage}
    (numbered : feed.map MarketDataMessage.mdSeqOf = List.range' 1 feed.length)
    (next : message.mdSeqOf = feed.length + 1) :
    (feed ++ [message]).map MarketDataMessage.mdSeqOf =
      List.range' 1 (feed ++ [message]).length := by
  rw [map_append, numbered, length_append, length_singleton, map_singleton, next,
    range'_concat, Nat.one_mul, Nat.add_comm 1]

/-- A trade message says nothing about tops. -/
theorem Told.trade (state : Told publisher feed) (symbol : SymbolId) (price : Price)
    (quantity : Quantity) :
    Told { publisher with mdSeq := publisher.mdSeq + 1 }
      (feed ++ [.mdTrade (publisher.mdSeq + 1) symbol price quantity]) := by
  have silent : ∀ other, told other
      (feed ++ [.mdTrade (publisher.mdSeq + 1) symbol price quantity]) = told other feed := by
    intro other
    rw [told_append]
    exact append_nil _
  refine ⟨?_, ?_, ?_, ?_⟩
  · intro other
    rw [silent]
    exact state.last other
  · intro other
    rw [silent]
    exact state.differ other
  · exact numbered_snoc state.numbered (congrArg (· + 1) state.counted)
  · rw [length_append, ← state.counted]
    rfl

theorem cached_insert (publisher : MarketDataPublisher) (symbol : SymbolId) (tob : Tob)
    (mdSeq : SeqNo) (other : SymbolId) :
    cached ⟨publisher.lastTob.insert symbol tob, mdSeq⟩ other =
      if other = symbol then tob else publisher.cached other := by
  simp only [cached, OrderedMap.find?_insert]
  split <;> rfl

/-- A top that differs from the remembered one is told and remembered. -/
theorem publishTop_news (news : publisher.cached symbol ≠ engine.tob symbol) :
    publisher.publishTop engine symbol =
      (⟨publisher.lastTob.insert symbol (engine.tob symbol), publisher.mdSeq + 1⟩,
        [.mdTopOfBook (publisher.mdSeq + 1) symbol (engine.bestBid symbol)
          (engine.bestAsk symbol)]) := by
  rw [cached] at news
  rw [publishTop]
  cases found : publisher.lastTob.find? symbol with
  | none =>
    rw [found] at news
    exact if_pos ((engine.tob symbol).isSome_iff.mpr (Ne.symm news))
  | some last =>
    rw [found] at news
    exact if_pos news

/-- Otherwise nothing is told. -/
theorem publishTop_idle (same : publisher.cached symbol = engine.tob symbol) :
    ∃ remembered, publisher.publishTop engine symbol = (⟨remembered, publisher.mdSeq⟩, []) ∧
      ∀ other, cached ⟨remembered, publisher.mdSeq⟩ other = publisher.cached other := by
  rw [publishTop]
  cases found : publisher.lastTob.find? symbol with
  | none =>
    have unknown : publisher.cached symbol = .empty := by rw [cached, found]; rfl
    have quiet : ¬ ((engine.tob symbol).bid.isSome || (engine.tob symbol).ask.isSome) = true :=
      fun some => (engine.tob symbol).isSome_iff.mp some (same.symm.trans unknown)
    refine ⟨publisher.lastTob.insert symbol (engine.tob symbol), if_neg quiet, ?_⟩
    intro other
    rw [cached_insert]
    split
    · rename_i here
      rw [here, same]
    · rfl
  | some last =>
    have known : publisher.cached symbol = last := by rw [cached, found]; rfl
    exact ⟨publisher.lastTob, if_neg (not_not.mpr (known.symm.trans same)), fun _ => rfl⟩

/-- What one touched symbol does to what was told. -/
theorem Told.top (state : Told publisher feed) (engine : MatchingEngine) (symbol : SymbolId) :
    Told (publisher.publishTop engine symbol).1
        (feed ++ (publisher.publishTop engine symbol).2) ∧
      ∀ other, (publisher.publishTop engine symbol).1.cached other =
        if other = symbol then engine.tob symbol else publisher.cached other := by
  by_cases same : publisher.cached symbol = engine.tob symbol
  · obtain ⟨remembered, idle, kept⟩ := publishTop_idle same
    rw [idle, append_nil]
    refine ⟨⟨?_, state.differ, state.numbered, state.counted⟩, ?_⟩
    · intro other
      rw [kept]
      exact state.last other
    · intro other
      rw [kept]
      split
      · rename_i here
        rw [here, same]
      · rfl
  · rw [publishTop_news same]
    refine ⟨⟨?_, ?_, ?_, ?_⟩, cached_insert publisher symbol _ _⟩
    · intro other
      rw [told_append, cached_insert]
      by_cases here : symbol = other
      · subst here
        simp [MarketDataMessage.top?, MatchingEngine.tob]
      · simp only [filterMap_cons, MarketDataMessage.top?, if_neg here, filterMap_nil,
          append_nil, if_neg (Ne.symm here)]
        exact state.last other
    · intro other
      rw [told_append]
      by_cases here : symbol = other
      · subst here
        simp only [filterMap_cons, MarketDataMessage.top?, if_true, filterMap_nil]
        refine isChain_append.mpr ⟨state.differ symbol, isChain_singleton _, ?_⟩
        intro before last after first
        rw [state.last symbol] at last
        cases last
        cases first
        exact same
      · simp only [filterMap_cons, MarketDataMessage.top?, if_neg here, filterMap_nil,
          append_nil]
        exact state.differ other
    · exact numbered_snoc state.numbered (congrArg (· + 1) state.counted)
    · rw [length_append, ← state.counted]
      rfl

/-- The loop over the touched symbols brings their tops up to date. -/
theorem Told.tops (state : Told publisher feed) (engine : MatchingEngine)
    (symbols : List SymbolId) :
    Told (publishTops engine publisher symbols).1
        (feed ++ (publishTops engine publisher symbols).2) ∧
      ∀ other, (publishTops engine publisher symbols).1.cached other =
        if other ∈ symbols then engine.tob other else publisher.cached other := by
  induction symbols generalizing publisher feed with
  | nil =>
    refine ⟨?_, fun _ => rfl⟩
    rw [publishTops, append_nil]
    exact state
  | cons symbol symbols ih =>
    obtain ⟨first, updated⟩ := state.top engine symbol
    obtain ⟨rest, final⟩ := ih first
    simp only [publishTops]
    refine ⟨?_, ?_⟩
    · rw [← append_assoc]
      exact rest
    · intro other
      rw [final, updated]
      by_cases here : other = symbol
      · simp [here]
      · simp [here]

theorem tops_shape (engine : MatchingEngine) (publisher : MarketDataPublisher)
    (symbols : List SymbolId) :
    ∀ message ∈ (publishTops engine publisher symbols).2, message.isTrade = false := by
  induction symbols generalizing publisher with
  | nil => exact nofun
  | cons symbol symbols ih =>
    intro message member
    simp only [publishTops] at member
    rcases mem_append.mp member with now | later
    · by_cases same : publisher.cached symbol = engine.tob symbol
      · obtain ⟨remembered, idle, _⟩ := publishTop_idle same
        rw [idle] at now
        cases now
      · rw [publishTop_news same] at now
        cases mem_singleton.mp now
        rfl
    · exact ih _ message later

/-- The loop over the events: a message for each trade, and the symbols they name. -/
theorem Told.scan (state : Told publisher feed) (events : List EngineEvent)
    (touched : List SymbolId) :
    let scanned := MarketDataPublisher.scan events touched publisher.mdSeq
    Told { publisher with mdSeq := scanned.2.1 } (feed ++ scanned.2.2) ∧
      (∀ symbol, symbol ∈ scanned.1 ↔
        symbol ∈ touched ∨ ∃ event ∈ events, event.symbolOf = symbol) ∧
      scanned.2.2.filterMap MarketDataMessage.trade? = events.filterMap EngineEvent.fill? ∧
      ∀ message ∈ scanned.2.2, message.isTrade = true := by
  induction events generalizing publisher feed touched with
  | nil =>
    refine ⟨?_, ?_, rfl, nofun⟩
    · rw [MarketDataPublisher.scan, append_nil]
      exact state
    · intro symbol
      simp [MarketDataPublisher.scan]
  | cons event events ih =>
    have grown : ∀ symbol, symbol ∈ (if event.symbolOf ∈ touched then touched
        else touched ++ [event.symbolOf]) ↔ symbol ∈ touched ∨ event.symbolOf = symbol := by
      intro symbol
      split
      · rename_i known
        refine ⟨Or.inl, ?_⟩
        rintro (old | rfl)
        · exact old
        · exact known
      · rw [mem_append, mem_singleton]
        exact or_congr_right eq_comm
    have named : ∀ symbol, (symbol ∈ touched ∨ event.symbolOf = symbol) ∨
        (∃ other ∈ events, other.symbolOf = symbol) ↔
        symbol ∈ touched ∨ ∃ other ∈ event :: events, other.symbolOf = symbol := by
      intro symbol
      simp [or_assoc]
    -- only a trade sends a message and takes a number
    by_cases trade : ∃ seq symbol taker maker price quantity,
        event = .tradeEvent seq symbol taker maker price quantity
    · obtain ⟨seq, symbol, taker, maker, price, quantity, rfl⟩ := trade
      obtain ⟨told, all, fills, trades⟩ := ih (state.trade symbol price quantity)
        (if symbol ∈ touched then touched else touched ++ [symbol])
      refine ⟨?_, ?_, ?_, ?_⟩
      · rw [append_assoc] at told
        exact told
      · intro other
        rw [← named, ← grown]
        exact all other
      · exact congrArg _ fills
      · intro message member
        rcases mem_cons.mp member with rfl | later
        · rfl
        · exact trades message later
    · obtain ⟨told, all, fills, trades⟩ := ih state
        (if event.symbolOf ∈ touched then touched else touched ++ [event.symbolOf])
      have reached := fun other =>
        (all other).trans ((or_congr_left (grown other)).trans (named other))
      cases event with
      | tradeEvent seq symbol taker maker price quantity =>
        exact absurd ⟨seq, symbol, taker, maker, price, quantity, rfl⟩ trade
      | _ => exact ⟨told, reached, fills, trades⟩

/-- A whole `publish`: trades first, then the tops of the symbols that the events name. -/
theorem Told.publish (state : Told publisher feed) (engine : MatchingEngine)
    (events : List EngineEvent) :
    Told (publisher.publish engine events).1 (feed ++ (publisher.publish engine events).2) ∧
      (∀ symbol, (publisher.publish engine events).1.cached symbol = engine.tob symbol ∨
        (∀ event ∈ events, event.symbolOf ≠ symbol) ∧
          (publisher.publish engine events).1.cached symbol = publisher.cached symbol) ∧
      ∃ trades tops, (publisher.publish engine events).2 = trades ++ tops ∧
        trades.filterMap MarketDataMessage.trade? = events.filterMap EngineEvent.fill? ∧
        (∀ message ∈ trades, message.isTrade = true) ∧
        ∀ message ∈ tops, message.isTrade = false := by
  obtain ⟨scanned, named, fills, trades⟩ := state.scan events []
  obtain ⟨final, updated⟩ := scanned.tops engine (MarketDataPublisher.scan events [] publisher.mdSeq).1
  refine ⟨?_, ?_, _, _, rfl, fills, trades, tops_shape engine _ _⟩
  · rw [append_assoc] at final
    exact final
  · intro symbol
    have cached := updated symbol
    by_cases member : symbol ∈ (MarketDataPublisher.scan events [] publisher.mdSeq).1
    · rw [if_pos member] at cached
      exact Or.inl cached
    · rw [if_neg member] at cached
      refine Or.inr ⟨?_, cached⟩
      intro event inside same
      exact member ((named symbol).mpr (Or.inr ⟨event, inside, same⟩))

end MarketDataPublisher

/-- No command changes the top of a symbol that none of its events names. -/
theorem MatchingEngine.apply_untouched (engine : MatchingEngine) (command : Command)
    (untouched : ∀ event ∈ (engine.apply command).2, event.symbolOf ≠ symbol) :
    (engine.apply command).1.tob symbol = engine.tob symbol := by
  rcases engine.apply_target command with ⟨name, _, applied⟩ | ⟨named, op, _, applied⟩
  · rw [applied]
    simp only [tob, bestBid, bestAsk]
    rcases engine.registerSymbol_findBook name symbol with same | ⟨unknown, fresh⟩
    · rw [same]
    · rw [fresh, unknown, Option.bind_some, Option.bind_some, OrderBook.bestBid, OrderBook.bestAsk,
        (OrderBook.valid_new _).observe_eq, OrderBook.view_new]
      rfl
  · rw [applied] at untouched ⊢
    rcases engine.call_cases named op with idle | ⟨book, found, _, done⟩
    · rw [idle]
    · rw [done] at untouched ⊢
      have apart : named ≠ symbol := by
        have first := untouched _ mem_cons_self
        rw [opening_symbolOf] at first
        exact first
      simp only [tob, bestBid, bestAsk, findBook, commit, OrderedMap.find?_insert,
        if_neg (Ne.symm apart)]

/-- The cache holds the engine's top of every symbol, whatever the symbols of the events. -/
structure InStep (state : MatchingEngine × MarketDataPublisher) (feed : List MarketDataMessage) :
    Prop where
  told : state.2.Told feed
  cached : ∀ symbol, state.2.cached symbol = state.1.tob symbol

theorem inStep_new (storage : Storage) : InStep (.new storage, .new) [] :=
  ⟨MarketDataPublisher.told_new, fun _ => rfl⟩

section

variable {state : MatchingEngine × MarketDataPublisher} {feed : List MarketDataMessage}
  (inStep : InStep state feed)

include inStep

theorem InStep.step (command : Command) :
    InStep (MarketDataPublisher.step state command).1
      (feed ++ (MarketDataPublisher.step state command).2) := by
  obtain ⟨told, cached, _⟩ :=
    inStep.told.publish (state.1.apply command).1 (state.1.apply command).2
  refine ⟨told, ?_⟩
  intro symbol
  rcases cached symbol with updated | ⟨untouched, kept⟩
  · exact updated
  · exact (kept.trans (inStep.cached symbol)).trans
      (state.1.apply_untouched command untouched).symm

theorem InStep.run (commands : List Command) :
    InStep (Machine.run MarketDataPublisher.step state commands).1
      (feed ++ (Machine.run MarketDataPublisher.step state commands).2.flatten) := by
  induction commands generalizing state feed with
  | nil =>
    rw [Machine.run_nil, flatten_nil, append_nil]
    exact inStep
  | cons command commands ih =>
    have later := ih (inStep.step command)
    rw [append_assoc] at later
    exact later

/-- The publisher only listens: the engine runs as it would alone, and the messages of each
command are its trades and then its tops. -/
theorem InStep.run_messages (commands : List Command) :
    let run := Machine.run MarketDataPublisher.step state commands
    let alone := Machine.run MatchingEngine.apply state.1 commands
    run.1.1 = alone.1 ∧
      run.2.map (List.filterMap MarketDataMessage.trade?) =
        alone.2.map (List.filterMap EngineEvent.fill?) ∧
      ∀ messages ∈ run.2, ∃ trades tops, messages = trades ++ tops ∧
        (∀ message ∈ trades, message.isTrade = true) ∧
        ∀ message ∈ tops, message.isTrade = false := by
  induction commands generalizing state feed with
  | nil => exact ⟨rfl, rfl, nofun⟩
  | cons command commands ih =>
    obtain ⟨_, _, trades, tops, sent, fills, allTrades, allTops⟩ :=
      inStep.told.publish (state.1.apply command).1 (state.1.apply command).2
    obtain ⟨engine, later, shapes⟩ := ih (inStep.step command)
    refine ⟨engine, ?_, ?_⟩
    · have quiet : tops.filterMap MarketDataMessage.trade? = [] := by
        rw [filterMap_eq_nil_iff]
        intro message member
        have top := allTops message member
        cases message with
        | mdTrade mdSeq symbol price quantity => cases top
        | mdTopOfBook mdSeq symbol bestBid bestAsk => rfl
      have first : (MarketDataPublisher.step state command).2.filterMap
          MarketDataMessage.trade? = (state.1.apply command).2.filterMap EngineEvent.fill? := by
        rw [show (MarketDataPublisher.step state command).2 = trades ++ tops from sent,
          filterMap_append, quiet, append_nil, fills]
      rw [Machine.run_cons, Machine.run_cons, map_cons, map_cons, first]
      exact congrArg _ later
    · intro messages member
      rcases mem_cons.mp member with rfl | other
      · exact ⟨trades, tops, sent, allTrades, allTops⟩
      · exact shapes messages other

end

/-- The feed of any run: the last top told of a symbol is the engine's, no top is told twice in
a row and none opens with an empty one; the trade messages of a command are its trade events and
come before its tops; and the messages are numbered from one without a gap. -/
theorem feed_tracks_top (storage : Storage) (commands : List Command) :
    let run := Machine.run MarketDataPublisher.step (.new storage, .new) commands
    let alone := Machine.run MatchingEngine.apply (.new storage) commands
    let feed := run.2.flatten
    run.1.1 = alone.1 ∧
      (∀ symbol, (feed.filterMap (MarketDataMessage.top? symbol)).getLast?.getD .empty =
        ⟨run.1.1.bestBid symbol, run.1.1.bestAsk symbol⟩) ∧
      (∀ symbol, (feed.filterMap (MarketDataMessage.top? symbol)).IsChain (· ≠ ·) ∧
        (feed.filterMap (MarketDataMessage.top? symbol)).head? ≠ some .empty) ∧
      run.2.map (List.filterMap MarketDataMessage.trade?) =
        alone.2.map (List.filterMap EngineEvent.fill?) ∧
      (∀ messages ∈ run.2, ∃ trades tops, messages = trades ++ tops ∧
        (∀ message ∈ trades, message.isTrade = true) ∧
        ∀ message ∈ tops, message.isTrade = false) ∧
      feed.map MarketDataMessage.mdSeqOf = List.range' 1 feed.length := by
  intro run alone feed
  obtain ⟨told, cached⟩ : InStep run.1 feed := (inStep_new storage).run commands
  obtain ⟨engine, fills, shapes⟩ := (inStep_new storage).run_messages commands
  refine ⟨engine, ?_, ?_, fills, shapes, told.numbered⟩
  · intro symbol
    have last := told.last symbol
    rw [MarketDataPublisher.told, getLast?_cons, cached symbol] at last
    exact Option.some.inj last
  · intro symbol
    have differ := told.differ symbol
    rw [MarketDataPublisher.told, isChain_cons] at differ
    refine ⟨differ.2, ?_⟩
    intro opens
    exact differ.1 _ opens rfl

end Qsl
