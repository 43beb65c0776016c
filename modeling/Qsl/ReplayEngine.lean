import Qsl.MatchingEngine

/- The OCaml oracle `replay_engine.ml`, written independently of the engine it checks. -/
namespace Qsl.ReplayEngine

/-- The native `int` of 63 bits: sums and differences wrap around. -/
def wrap (n : Int) : Int := n.bmod (2 ^ 63)

abbrev IMap (ν : Type) := OrderedMap Int ν (· < ·)

inductive Command where
  | reg (name : SymbolName)
  | limit (sym id : Int) (side : Side) (price qty : Int) (tif : TimeInForce)
  | market (sym id : Int) (side : Side) (qty : Int)
  | cancel (sym id : Int)
  | modify (sym id price qty : Int)
  deriving DecidableEq, Repr

structure Limits where
  maxQty : Int
  maxNotional : Int
  deriving DecidableEq, Repr

structure Order where
  id : Int
  qty : Int
  deriving DecidableEq, Repr

/-- Taker, maker, price and quantity. -/
abbrev Trade := Int × Int × Int × Int

/-- Levels by price, oldest order first, and the side and price of every resting id. -/
structure Book where
  bids : IMap (List Order)
  asks : IMap (List Order)
  locs : IMap (Side × Int)

def emptyBook : Book := ⟨.empty, .empty, .empty⟩

def contains (b : Book) (id : Int) : Bool := b.locs.contains id

/-- The inner loop of `match_qty` over one level. -/
def consume (takerId levelPrice : Int) : List Order → IMap (Side × Int) → Int → List Trade →
    List Order × IMap (Side × Int) × Int × List Trade
  | [], locs, qty, trades => ([], locs, qty, trades)
  | maker :: rest, locs, qty, trades =>
    if qty ≤ 0 then (maker :: rest, locs, qty, trades)
    else
      let traded := min qty maker.qty
      let trades' := (takerId, maker.id, levelPrice, traded) :: trades
      let qty' := wrap (qty - traded)
      let makerQty := wrap (maker.qty - traded)
      if makerQty = 0 then consume takerId levelPrice rest (locs.erase maker.id) qty' trades'
      else ({ maker with qty := makerQty } :: rest, locs, qty', trades')

/-- `match_qty`. Each round removes a level or ends with nothing left to match, so that one
round more than there are levels is enough. -/
def matchQty (takerId : Int) (takerIsBuy : Bool) (limit : Int) (isMarket : Bool) :
    Nat → IMap (List Order) → IMap (Side × Int) → Int → List Trade →
    IMap (List Order) × IMap (Side × Int) × List Trade × Int
  | 0, opp, locs, qty, trades => (opp, locs, trades, qty)
  | bound + 1, opp, locs, qty, trades =>
    match if takerIsBuy then opp.first? else opp.last? with
    | none => (opp, locs, trades, qty)
    | some (levelPrice, level) =>
      if qty ≤ 0 then (opp, locs, trades, qty)
      else if isMarket || (if takerIsBuy then levelPrice ≤ limit else levelPrice ≥ limit) then
        let (level', locs', qty', trades') := consume takerId levelPrice level locs qty trades
        let opp' := if level' = [] then opp.erase levelPrice else opp.insert levelPrice level'
        matchQty takerId takerIsBuy limit isMarket bound opp' locs' qty' trades'
      else (opp, locs, trades, qty)

def restOrder (b : Book) (side : Side) (price : Int) (order : Order) : Book :=
  let add (map : IMap (List Order)) := map.insert price ((map.find? price).getD [] ++ [order])
  let locs := b.locs.insert order.id (side, price)
  if side = .buy then { b with bids := add b.bids, locs := locs }
  else { b with asks := add b.asks, locs := locs }

/-- The match that `add_limit` and `add_market` start with, written back to the book. -/
def matchBook (b : Book) (id : Int) (side : Side) (limit : Int) (isMarket : Bool) (qty : Int) :
    Book × List Trade × Int :=
  let takerIsBuy := side == .buy
  let opp := if takerIsBuy then b.asks else b.bids
  let (opp', locs', tradesRev, remaining) :=
    matchQty id takerIsBuy limit isMarket (opp.size + 1) opp b.locs qty []
  (if takerIsBuy then { b with asks := opp', locs := locs' }
    else { b with bids := opp', locs := locs' }, tradesRev.reverse, remaining)

def addLimit (b : Book) (id : Int) (side : Side) (price qty : Int) (tif : TimeInForce) :
    Book × List Trade :=
  let (b', trades, remaining) := matchBook b id side price false qty
  (if remaining > 0 ∧ tif = .gtc then restOrder b' side price ⟨id, remaining⟩ else b', trades)

def addMarket (b : Book) (id : Int) (side : Side) (qty : Int) : Book × List Trade :=
  let (b', trades, _) := matchBook b id side 0 true qty
  (b', trades)

def cancel (b : Book) (id : Int) : Book × Bool :=
  match b.locs.find? id with
  | none => (b, false)
  | some (side, price) =>
    let remove (map : IMap (List Order)) :=
      match map.find? price with
      | none => map
      | some level =>
        let level' := level.filter (fun o => o.id ≠ id)
        if level' = [] then map.erase price else map.insert price level'
    let locs := b.locs.erase id
    (if side = .buy then { b with bids := remove b.bids, locs := locs }
      else { b with asks := remove b.asks, locs := locs }, true)

def restingQty (b : Book) (side : Side) (price id : Int) : Int :=
  let map := if side = .buy then b.bids else b.asks
  match map.find? price with
  | some level => ((level.find? (fun o => o.id = id)).map Order.qty).getD 0
  | none => 0

/-- The level that is rewritten in place is there whenever the id has a location. -/
def modifyBook (b : Book) (id newPrice newQty : Int) : Book × List Trade :=
  match b.locs.find? id with
  | none => (b, [])
  | some (side, price0) =>
    if newQty = 0 then ((cancel b id).1, [])
    else if newPrice = price0 ∧ newQty ≤ restingQty b side price0 id then
      let upd (map : IMap (List Order)) := map.insert price0
        (((map.find? price0).getD []).map
          (fun o => if o.id = id then { o with qty := newQty } else o))
      (if side = .buy then { b with bids := upd b.bids } else { b with asks := upd b.asks }, [])
    else addLimit (cancel b id).1 id side newPrice newQty .gtc

def checkLimitValues (limits : Limits) (price qty : Int) : Option String :=
  if price ≤ 0 then some "InvalidPrice"
  else if qty ≤ 0 then some "InvalidQuantity"
  else if qty > limits.maxQty then some "MaxQuantityExceeded"
  else if qty > limits.maxNotional.tdiv price then some "MaxNotionalExceeded"
  else none

def checkMarket (limits : Limits) (qty : Int) : Option String :=
  if qty ≤ 0 then some "InvalidQuantity"
  else if qty > limits.maxQty then some "MaxQuantityExceeded"
  else none

structure State where
  names : OrderedMap SymbolName Int (List.Lex (· < ·))
  nextId : Int
  books : IMap Book
  seq : Int
  trades : Int
  limits : Limits

def initial (limits : Limits) : State := ⟨.empty, 0, .empty, 0, 0, limits⟩

def putBook (st : State) (sym : Int) (b : Book) (ev fills : Int) : State :=
  { st with
    books := st.books.insert sym b
    seq := wrap (st.seq + ev)
    trades := wrap (st.trades + fills) }

/-- Store a book and count its trades, behind the event that opens them. -/
def putTrades (st : State) (sym : Int) (result : Book × List Trade) : State :=
  putBook st sym result.1 (wrap (1 + result.2.length)) result.2.length

def apply (st : State) : Command → State
  | .reg name =>
    match st.names.find? name with
    | some _ => st
    | none =>
      { st with
        names := st.names.insert name st.nextId
        nextId := wrap (st.nextId + 1)
        books := st.books.insert st.nextId emptyBook }
  | .limit sym id side price qty tif =>
    match st.books.find? sym with
    | none => st
    | some b =>
      if contains b id then st
      else
        match checkLimitValues st.limits price qty with
        | some _ => st
        | none => putTrades st sym (addLimit b id side price qty tif)
  | .market sym id side qty =>
    match st.books.find? sym with
    | none => st
    | some b =>
      if contains b id then st
      else
        match checkMarket st.limits qty with
        | some _ => st
        | none => putTrades st sym (addMarket b id side qty)
  | .cancel sym id =>
    match st.books.find? sym with
    | none => st
    | some b => if !contains b id then st else putBook st sym (cancel b id).1 1 0
  | .modify sym id price qty =>
    match st.books.find? sym with
    | none => st
    | some b =>
      if !contains b id then st
      else if qty = 0 then putTrades st sym (modifyBook b id price qty)
      else
        match checkLimitValues st.limits price qty with
        | some _ => st
        | none => putTrades st sym (modifyBook b id price qty)

def replay (limits : Limits) (commands : List Command) : State :=
  commands.foldl apply (initial limits)

structure LevelView where
  price : Int
  qty : Int
  deriving DecidableEq, Repr

structure SymSnapshot where
  sym : Int
  bestBid : Option Int
  bestAsk : Option Int
  orderCount : Int
  bidLevels : List LevelView
  askLevels : List LevelView
  deriving DecidableEq, Repr

structure Snapshot where
  lastSeq : Int
  nTrades : Int
  symbols : List SymSnapshot
  deriving DecidableEq, Repr

def levelViews (map : IMap (List Order)) (descending : Bool) : List LevelView :=
  let ordered := if descending then map.entries.reverse else map.entries
  ordered.map (fun entry => ⟨entry.1, entry.2.foldl (fun total o => wrap (total + o.qty)) 0⟩)

def symSnapshot (sym : Int) (b : Book) : SymSnapshot :=
  ⟨sym, b.bids.last?.map Prod.fst, b.asks.first?.map Prod.fst, b.locs.size,
    levelViews b.bids true, levelViews b.asks false⟩

def snapshot (st : State) : Snapshot :=
  ⟨st.seq, st.trades, st.books.entries.map (fun entry => symSnapshot entry.1 entry.2)⟩

end Qsl.ReplayEngine
