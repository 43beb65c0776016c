import Qsl.NativeInt
import Qsl.ReplayEngine
import Qsl.TextLines

/- `stream_parser.ml`: the fixture as the oracle reads it. A `Parse_error` carries its message. -/
namespace Qsl.StreamParser

open Decimal (printInt)
open TextLines (Text text space newline)
open ReplayEngine (Limits SymSnapshot Snapshot)

def words (line : Text) : List Text := TextLines.words space line

def intOf (t : Text) : Except Text Int :=
  match NativeInt.intOfString? t with
  | some n => .ok n
  | none => .error (text "expected int: " ++ t)

def sideOf (s : Text) : Except Text Side :=
  if s = text "B" then .ok .buy
  else if s = text "S" then .ok .sell
  else .error (text "bad side: " ++ s)

def tifOf (s : Text) : Except Text TimeInForce :=
  if s = text "GTC" then .ok .gtc
  else if s = text "IOC" then .ok .ioc
  else .error (text "bad tif: " ++ s)

/-- The integer right behind a key. -/
def valueAfter (key : Text) : List Text → Except Text Int
  | a :: b :: tl => if a = key then intOf b else valueAfter key (b :: tl)
  | [_] => .error (text "missing meta field: " ++ key)
  | [] => .error (text "missing meta field: " ++ key)

/-- The words behind `cmd`, or nothing if they have the form of no command. The arguments of a
constructor are evaluated from the last to the first. -/
def parseCommand : List Text → Option (Except Text ReplayEngine.Command)
  | [verb, name] => if verb = text "reg" then some (.ok (.reg name)) else none
  | [verb, sym, id] =>
    if verb = text "cancel" then
      some do
        let id ← intOf id
        let sym ← intOf sym
        .ok (.cancel sym id)
    else none
  | [verb, sym, id, third, qty] =>
    if verb = text "market" then
      some do
        let qty ← intOf qty
        let side ← sideOf third
        let id ← intOf id
        let sym ← intOf sym
        .ok (.market sym id side qty)
    else if verb = text "modify" then
      some do
        let qty ← intOf qty
        let price ← intOf third
        let id ← intOf id
        let sym ← intOf sym
        .ok (.modify sym id price qty)
    else none
  | [verb, sym, id, side, price, qty, tif] =>
    if verb = text "limit" then
      some do
        let tif ← tifOf tif
        let qty ← intOf qty
        let price ← intOf price
        let side ← sideOf side
        let id ← intOf id
        let sym ← intOf sym
        .ok (.limit sym id side price qty tif)
    else none
  | _ => none

/-- The limits once they are read, and the commands from the last one back. -/
structure Pass where
  limits : Option Limits
  commands : List ReplayEngine.Command

def unrecognized (other : List Text) : Except Text Pass :=
  .error (text "unrecognized line: " ++ TextLines.unwords space other)

/-- The lines that report what the engine did. -/
def isReport (first : Text) : Bool :=
  first = text "evt" || first = text "reject" || first = text "snapshot" || first = text "sym" ||
    first = text "level"

def handleCommand (pass : Pass) (rest : List Text) : Except Text Pass :=
  match parseCommand rest with
  | some parsed => do
      let command ← parsed
      .ok { pass with commands := command :: pass.commands }
  | none => unrecognized (text "cmd" :: rest)

def handleMeta (pass : Pass) (toks : List Text) : Except Text Pass := do
  let maxNotional ← valueAfter (text "max_notional") toks
  let maxQty ← valueAfter (text "max_qty") toks
  .ok { pass with limits := some ⟨maxQty, maxNotional⟩ }

/-- The first letter of a comment. -/
def hash : UInt8 := 35

def handle (pass : Pass) : List Text → Except Text Pass
  | [] => .ok pass
  | first :: rest =>
    if first.head? = some hash then .ok pass
    else if first = text "version" then .ok pass
    else if first = text "meta" then handleMeta pass (first :: rest)
    else if first = text "cmd" then handleCommand pass rest
    else if isReport first then .ok pass
    else unrecognized (first :: rest)

def parseLines (lines : List Text) : Except Text (Limits × List ReplayEngine.Command) := do
  let pass ← lines.foldlM (fun pass line => handle pass (words line)) ⟨none, []⟩
  match pass.limits with
  | none => .error (text "fixture missing meta line (need max_qty/max_notional)")
  | some limits => .ok (limits, pass.commands.reverse)

def opt (s : Text) : Except Text (Option Int) :=
  if s = text "-" then .ok none
  else do
    let n ← intOf s
    .ok (some n)

/-- The snapshot read so far, its symbols from the last one back. -/
structure SnapshotPass where
  lastSeq : Int
  nTrades : Int
  syms : List SymSnapshot

/-- A level belongs to the symbol read last. -/
def handleLevel (pass : SnapshotPass) (s ba price qty : Text) : Except Text SnapshotPass := do
  let levelSym ← intOf s
  match pass.syms with
  | [] => .error (text "level line before any sym line")
  | cur :: rest =>
    if levelSym ≠ cur.sym then
      .error (text "level symbol " ++ printInt levelSym ++ text " does not match current sym " ++
        printInt cur.sym)
    else
      let qty ← intOf qty
      let price ← intOf price
      let lv : ReplayEngine.LevelView := ⟨price, qty⟩
      let cur :=
        if ba = text "B" then { cur with bidLevels := cur.bidLevels ++ [lv] }
        else { cur with askLevels := cur.askLevels ++ [lv] }
      .ok { pass with syms := cur :: rest }

def handleSnapshot (pass : SnapshotPass) : List Text → Except Text SnapshotPass
  | [first, a, b, c, d] =>
    if first = text "snapshot" ∧ a = text "last_seq" ∧ c = text "trades" then do
      let lastSeq ← intOf b
      let nTrades ← intOf d
      .ok { pass with lastSeq := lastSeq, nTrades := nTrades }
    else if first = text "level" then handleLevel pass a b c d
    else .ok pass
  | [first, s, bid, b, ask, a, orders, n] =>
    if first = text "sym" ∧ bid = text "bid" ∧ ask = text "ask" ∧ orders = text "orders" then do
      let orderCount ← intOf n
      let bestAsk ← opt a
      let bestBid ← opt b
      let sym ← intOf s
      .ok { pass with syms := ⟨sym, bestBid, bestAsk, orderCount, [], []⟩ :: pass.syms }
    else .ok pass
  | _ => .ok pass

def parseFullLines (lines : List Text) :
    Except Text (Limits × List ReplayEngine.Command × Snapshot) := do
  let (limits, commands) ← parseLines lines
  let pass ← lines.foldlM (fun pass line => handleSnapshot pass (words line)) ⟨0, 0, []⟩
  .ok (limits, commands, ⟨pass.lastSeq, pass.nTrades, pass.syms.reverse⟩)

/-- The lines of a file, as the loop over `input_line` collects them. -/
def parseFullFile (contents : Text) :
    Except Text (Limits × List ReplayEngine.Command × Snapshot) :=
  parseFullLines (TextLines.inputLines newline contents)

end Qsl.StreamParser

/- The snapshot as the oracle prints it. -/
namespace Qsl.ReplayEngine

open Decimal (printInt)
open TextLines (Text text)

def optStr : Option Int → Text
  | some p => printInt p
  | none => text "-"

def levelLine (sym : Int) (side : String) (l : LevelView) : Text :=
  text "level " ++ printInt sym ++ text " " ++ text side ++ text " " ++ printInt l.price ++
    text " " ++ printInt l.qty

def symBlock (x : SymSnapshot) : List Text :=
  (text "sym " ++ printInt x.sym ++ text " bid " ++ optStr x.bestBid ++ text " ask " ++
      optStr x.bestAsk ++ text " orders " ++ printInt x.orderCount) ::
    x.bidLevels.map (levelLine x.sym "B") ++ x.askLevels.map (levelLine x.sym "A")

def snapshotToLines (s : Snapshot) : List Text :=
  (text "snapshot last_seq " ++ printInt s.lastSeq ++ text " trades " ++ printInt s.nTrades) ::
    s.symbols.flatMap symBlock

end Qsl.ReplayEngine
