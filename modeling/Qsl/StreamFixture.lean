import Qsl.RenumberSemantics
import Qsl.TextLines

/- The differential-testing fixture of a command flow, as `fixture.cpp` writes it. -/
namespace Qsl.StreamFixture

open List
open Decimal (print printInt)
open TextLines (Text text space newline unwords)

def sideCh : Side → Text
  | .buy => text "B"
  | .sell => text "S"

def tifStr : TimeInForce → Text
  | .gtc => text "GTC"
  | .ioc => text "IOC"

def px (p : Price) : Text := printInt p.toInt

def optPx : Option Price → Text
  | some p => px p
  | none => text "-"

def reasonText : RejectReason → Text
  | .none => text "None"
  | .unknownSymbol => text "UnknownSymbol"
  | .invalidPrice => text "InvalidPrice"
  | .invalidQuantity => text "InvalidQuantity"
  | .invalidSide => text "InvalidSide"
  | .maxQuantityExceeded => text "MaxQuantityExceeded"
  | .maxNotionalExceeded => text "MaxNotionalExceeded"
  | .duplicateOrderId => text "DuplicateOrderId"
  | .unknownOrder => text "UnknownOrder"
  | .storageExhausted => text "StorageExhausted"

/-- The line of an event about one order. -/
def emitOrderEvent (kind : String) (seq : SeqNo) (symbol : SymbolId) (orderId : OrderId) : Text :=
  text kind ++ print seq ++ text " " ++ print symbol.toNat ++ text " " ++ print orderId.toNat ++
    text "\n"

def emitEvent : EngineEvent → Text
  | .orderAccepted seq symbol orderId => emitOrderEvent "evt accept " seq symbol orderId
  | .orderCanceled seq symbol orderId => emitOrderEvent "evt cancel " seq symbol orderId
  | .orderModified seq symbol orderId => emitOrderEvent "evt modify " seq symbol orderId
  | .tradeEvent seq symbol takerId makerId price quantity =>
    text "evt trade " ++ print seq ++ text " " ++ print symbol.toNat ++ text " " ++
      print takerId.toNat ++ text " " ++ print makerId.toNat ++ text " " ++
      printInt price.toInt ++ text " " ++ print quantity.toNat ++ text "\n"

/-- One line per event in emission order, and the trades counted on. -/
def emitEvents (os : Text) (trades : Nat) (events : List EngineEvent) : Text × Nat :=
  events.foldl (fun out event =>
    (out.1 ++ emitEvent event, if event.isTrade then out.2 + 1 else out.2)) (os, trades)

def emitReject (kind : String) (id : OrderId) (reason : RejectReason) : Text :=
  text "reject " ++ text kind ++ text " " ++ print id.toNat ++ text " " ++ reasonText reason ++
    text "\n"

def emitCmd : Command → Text
  | .registerSymbol name => text "cmd reg " ++ name ++ text "\n"
  | .newLimit symbol id side price quantity tif =>
    text "cmd limit " ++ print symbol.toNat ++ text " " ++ print id.toNat ++ text " " ++
      sideCh side ++ text " " ++ px price ++ text " " ++ print quantity.toNat ++ text " " ++
      tifStr tif ++ text "\n"
  | .newMarket symbol id side quantity =>
    text "cmd market " ++ print symbol.toNat ++ text " " ++ print id.toNat ++ text " " ++
      sideCh side ++ text " " ++ print quantity.toNat ++ text "\n"
  | .cancel symbol id =>
    text "cmd cancel " ++ print symbol.toNat ++ text " " ++ print id.toNat ++ text "\n"
  | .modify symbol id price quantity =>
    text "cmd modify " ++ print symbol.toNat ++ text " " ++ print id.toNat ++ text " " ++
      px price ++ text " " ++ print quantity.toNat ++ text "\n"

/-- A registration is never rejected. -/
def emitCommandReject (reason : RejectReason) : Command → Text
  | .newLimit _ id _ _ _ _ => emitReject "new_limit" id reason
  | .newMarket _ id _ _ => emitReject "new_market" id reason
  | .cancel _ id => emitReject "cancel" id reason
  | .modify _ id _ _ => emitReject "modify" id reason
  | .registerSymbol _ => []

structure FixtureParams where
  seed : UInt64
  symbols : SymbolId
  orders : Nat
  maxQty : Quantity
  maxNotional : QuantityTotal
  deriving DecidableEq, Repr

def FixtureParams.risk (p : FixtureParams) : RiskConfig := ⟨p.maxQty, p.maxNotional⟩

/-- The stream, the engine and the trade counter of the loop over the flow. -/
structure Run where
  os : Text
  engine : MatchingEngine
  trades : Nat

def Run.step (config : RiskConfig) (run : Run) (command : Command) : Run :=
  let os := run.os ++ emitCmd command
  let (engine, r) := applyCommand config run.engine command
  if !r.accepted then ⟨os ++ emitCommandReject r.reason command, engine, run.trades⟩
  else
    let (os, trades) := emitEvents os run.trades r.events
    ⟨os, engine, trades⟩

def emitHeader (p : FixtureParams) : Text :=
  text "# qsl differential-testing fixture: command stream + events + rejections + snapshot\n" ++
    text "version 1\n" ++
    text "meta seed " ++ print p.seed.toNat ++ text " symbols " ++ print p.symbols.toNat ++
    text " orders " ++ print p.orders ++ text " max_qty " ++ print p.maxQty.toNat ++
    text " max_notional " ++ print p.maxNotional.toNat ++ text "\n"

def emitLevel (symbol : SymbolId) (side : String) (lv : LevelView) : Text :=
  text "level " ++ print symbol.toNat ++ text " " ++ text side ++ text " " ++ px lv.price ++
    text " " ++ print lv.quantity.toNat ++ text "\n"

def emitSymbol (s : SymbolSnapshot) : Text :=
  text "sym " ++ print s.symbol.toNat ++ text " bid " ++ optPx s.bestBid ++ text " ask " ++
    optPx s.bestAsk ++ text " orders " ++ print s.orderCount ++ text "\n" ++
    s.bids.flatMap (emitLevel s.symbol "B") ++ s.asks.flatMap (emitLevel s.symbol "A")

def emitSnapshot (snap : EngineSnapshot) (trades : Nat) : Text :=
  text "snapshot last_seq " ++ print snap.lastSeq ++ text " trades " ++ print trades ++
    text "\n" ++ snap.symbols.flatMap emitSymbol

/-- `run_and_emit`: the flow through a fresh engine with the default storage. -/
def runAndEmit (p : FixtureParams) (flow : List Command) : Text :=
  let run := flow.foldl (Run.step p.risk) ⟨emitHeader p, .new .baseline, 0⟩
  run.os ++ emitSnapshot run.engine.snapshot run.trades

/- The same text line by line, each line as its words. -/
section Words

/-- The text of a list of lines. -/
def unlines (lines : List (List Text)) : Text :=
  DelimitedText.join (unwords space) newline lines

def eventWords : EngineEvent → List Text
  | .orderAccepted seq symbol orderId =>
    [text "evt", text "accept", print seq, print symbol.toNat, print orderId.toNat]
  | .orderCanceled seq symbol orderId =>
    [text "evt", text "cancel", print seq, print symbol.toNat, print orderId.toNat]
  | .orderModified seq symbol orderId =>
    [text "evt", text "modify", print seq, print symbol.toNat, print orderId.toNat]
  | .tradeEvent seq symbol takerId makerId price quantity =>
    [text "evt", text "trade", print seq, print symbol.toNat, print takerId.toNat,
      print makerId.toNat, printInt price.toInt, print quantity.toNat]

def cmdWords : Command → List Text
  | .registerSymbol name => [text "cmd", text "reg", name]
  | .newLimit symbol id side price quantity tif =>
    [text "cmd", text "limit", print symbol.toNat, print id.toNat, sideCh side, px price,
      print quantity.toNat, tifStr tif]
  | .newMarket symbol id side quantity =>
    [text "cmd", text "market", print symbol.toNat, print id.toNat, sideCh side,
      print quantity.toNat]
  | .cancel symbol id => [text "cmd", text "cancel", print symbol.toNat, print id.toNat]
  | .modify symbol id price quantity =>
    [text "cmd", text "modify", print symbol.toNat, print id.toNat, px price,
      print quantity.toNat]

def rejectWords (kind : String) (id : OrderId) (reason : RejectReason) : List Text :=
  [text "reject", text kind, print id.toNat, reasonText reason]

def commandRejectWords (reason : RejectReason) : Command → List (List Text)
  | .newLimit _ id _ _ _ _ => [rejectWords "new_limit" id reason]
  | .newMarket _ id _ _ => [rejectWords "new_market" id reason]
  | .cancel _ id => [rejectWords "cancel" id reason]
  | .modify _ id _ _ => [rejectWords "modify" id reason]
  | .registerSymbol _ => []

/-- The lines of one command with the answer to it. -/
def answerWords (command : Command) (r : GatewayResult) : List (List Text) :=
  cmdWords command ::
    if r.accepted then r.events.map eventWords else commandRejectWords r.reason command

def metaWords (p : FixtureParams) : List Text :=
  [text "meta", text "seed", print p.seed.toNat, text "symbols", print p.symbols.toNat,
    text "orders", print p.orders, text "max_qty", print p.maxQty.toNat, text "max_notional",
    print p.maxNotional.toNat]

def headerWords (p : FixtureParams) : List (List Text) :=
  [[text "#", text "qsl", text "differential-testing", text "fixture:", text "command",
      text "stream", text "+", text "events", text "+", text "rejections", text "+",
      text "snapshot"],
    [text "version", text "1"],
    metaWords p]

def levelWords (symbol : SymbolId) (side : String) (lv : LevelView) : List Text :=
  [text "level", print symbol.toNat, text side, px lv.price, print lv.quantity.toNat]

def symbolWords (s : SymbolSnapshot) : List (List Text) :=
  [text "sym", print s.symbol.toNat, text "bid", optPx s.bestBid, text "ask", optPx s.bestAsk,
      text "orders", print s.orderCount] ::
    (s.bids.map (levelWords s.symbol "B") ++ s.asks.map (levelWords s.symbol "A"))

def snapshotWords (snap : EngineSnapshot) (trades : Nat) : List (List Text) :=
  [text "snapshot", text "last_seq", print snap.lastSeq, text "trades", print trades] ::
    snap.symbols.flatMap symbolWords

/-- All lines of the fixture, read off the run of the engine. -/
def fixtureWords (p : FixtureParams) (flow : List Command) : List (List Text) :=
  let run := Machine.run (applyCommand p.risk) (.new .baseline) flow
  headerWords p ++ (flow.zip run.2).flatMap (fun pair => answerWords pair.1 pair.2) ++
    snapshotWords run.1.snapshot (countTrades flow p.maxQty p.maxNotional)

@[simp] theorem unlines_nil : unlines [] = [] := rfl

theorem unlines_single (tokens : List Text) :
    unlines [tokens] = unwords space tokens ++ [newline] := by
  rw [unlines, DelimitedText.join_cons, DelimitedText.join_nil]

theorem unlines_append (first second : List (List Text)) :
    unlines (first ++ second) = unlines first ++ unlines second :=
  DelimitedText.join_append first second

theorem unlines_cons (tokens : List Text) (lines : List (List Text)) :
    unlines (tokens :: lines) = unlines [tokens] ++ unlines lines :=
  unlines_append [tokens] lines

theorem unlines_flatMap {α : Type} (items : List α) (lines : α → List (List Text)) :
    unlines (items.flatMap lines) = items.flatMap (fun item => unlines (lines item)) := by
  induction items with
  | nil => rfl
  | cons item items ih =>
    rw [flatMap_cons, flatMap_cons, unlines_append, ih]

theorem unlines_map {α : Type} (items : List α) (tokens : α → List Text) :
    unlines (items.map tokens) = items.flatMap (fun item => unlines [tokens item]) := by
  rw [map_eq_flatMap, unlines_flatMap]

theorem emitEvent_eq (event : EngineEvent) : emitEvent event = unlines [eventWords event] := by
  rw [unlines_single]
  cases event <;> simp [emitEvent, emitOrderEvent, eventWords, unwords, List.intercalate, text,
    space, newline]

theorem emitCmd_eq (command : Command) : emitCmd command = unlines [cmdWords command] := by
  rw [unlines_single]
  cases command <;> simp [emitCmd, cmdWords, unwords, List.intercalate, text, space, newline]

theorem emitReject_eq (kind : String) (id : OrderId) (reason : RejectReason) :
    emitReject kind id reason = unlines [rejectWords kind id reason] := by
  rw [unlines_single]
  simp [emitReject, rejectWords, unwords, List.intercalate, text, space, newline]

theorem emitCommandReject_eq (reason : RejectReason) (command : Command) :
    emitCommandReject reason command = unlines (commandRejectWords reason command) := by
  cases command with
  | registerSymbol name => rfl
  | _ => exact emitReject_eq ..

theorem emitHeader_eq (p : FixtureParams) : emitHeader p = unlines (headerWords p) := by
  rw [headerWords, unlines, DelimitedText.join_cons, DelimitedText.join_cons,
    DelimitedText.join_cons]
  simp [emitHeader, metaWords, unwords, List.intercalate, text, space, newline]

theorem emitLevel_eq (symbol : SymbolId) (side : String) (lv : LevelView) :
    emitLevel symbol side lv = unlines [levelWords symbol side lv] := by
  rw [unlines_single]
  simp [emitLevel, levelWords, unwords, List.intercalate, text, space, newline]

theorem emitSymbol_eq (s : SymbolSnapshot) : emitSymbol s = unlines (symbolWords s) := by
  rw [emitSymbol, symbolWords, funext (emitLevel_eq s.symbol "B"),
    funext (emitLevel_eq s.symbol "A"), ← unlines_map, ← unlines_map, append_assoc,
    ← unlines_append, unlines_cons, unlines_single]
  simp [unwords, List.intercalate, text, space, newline]

theorem emitSnapshot_eq (snap : EngineSnapshot) (trades : Nat) :
    emitSnapshot snap trades = unlines (snapshotWords snap trades) := by
  rw [emitSnapshot, snapshotWords, funext emitSymbol_eq, ← unlines_flatMap, unlines_cons,
    unlines_single]
  simp [unwords, List.intercalate, text, space, newline]

theorem emitEvents_eq (os : Text) (trades : Nat) (events : List EngineEvent) :
    emitEvents os trades events =
      (os ++ unlines (events.map eventWords), trades + events.countP EngineEvent.isTrade) := by
  induction events generalizing os trades with
  | nil => exact Prod.ext (append_nil _).symm rfl
  | cons event events ih =>
    have next : emitEvents os trades (event :: events) = emitEvents (os ++ emitEvent event)
        (if event.isTrade then trades + 1 else trades) events := rfl
    rw [next, ih, emitEvent_eq, append_assoc, ← unlines_cons, countP_cons]
    refine Prod.ext rfl ?_
    simp only
    split <;> omega

/-- One round of the loop writes the lines of the command and the answer. -/
theorem Run.step_eq {run : Run} (valid : run.engine.Valid) (config : RiskConfig)
    (command : Command) :
    let applied := applyCommand config run.engine command
    run.step config command = ⟨run.os ++ unlines (answerWords command applied.2), applied.1,
      run.trades + applied.2.events.countP EngineEvent.isTrade⟩ := by
  have first : ∀ rest, unlines (cmdWords command :: rest) =
      emitCmd command ++ unlines rest := by
    intro rest
    rw [emitCmd_eq, ← unlines_cons]
  rcases applyCommand_cases config valid command with
    ⟨reason, rejected⟩ | ⟨after, events, applied, _⟩
  · simp only [Run.step, rejected, answerWords, first, GatewayResult.reject, Bool.not_false,
      if_true, Bool.false_eq_true, if_false, emitCommandReject_eq, append_assoc]
    rfl
  · simp only [Run.step, applied, answerWords, first, GatewayResult.accept, Bool.not_true, if_true,
      Bool.false_eq_true, if_false, emitEvents_eq, append_assoc]

/-- The loop writes the lines of every command, behind what was there. -/
theorem Run.run_eq {run : Run} (sound : run.engine.Sound .baseline) (config : RiskConfig)
    (flow : List Command) :
    let applied := Machine.run (applyCommand config) run.engine flow
    flow.foldl (Run.step config) run =
      ⟨run.os ++ unlines ((flow.zip applied.2).flatMap (fun pair => answerWords pair.1 pair.2)),
        applied.1, run.trades + tradeCount applied.2⟩ := by
  induction flow generalizing run with
  | nil => simp [tradeCount]
  | cons command flow ih =>
    obtain ⟨kept, -⟩ := sound.applyCommand config command
    have next := Run.step_eq sound.valid config command
    simp only at next ih
    rw [foldl_cons, next, ih kept]
    simp only [Machine.run_cons, zip_cons_cons, flatMap_cons, tradeCount, map_cons,
      sum_cons, unlines_append, append_assoc, Nat.add_assoc]

theorem runAndEmit_eq (p : FixtureParams) (flow : List Command) :
    runAndEmit p flow = unlines (fixtureWords p flow) := by
  have ran := @Run.run_eq ⟨emitHeader p, .new .baseline, 0⟩ (MatchingEngine.sound_new .baseline)
    p.risk flow
  simp only at ran
  rw [runAndEmit, fixtureWords, ran, Nat.zero_add, emitHeader_eq, emitSnapshot_eq, unlines_append,
    unlines_append]
  rfl

end Words

end Qsl.StreamFixture
