import Qsl.StreamFixture
import Qsl.StreamParser
import Qsl.OracleRefinement

/- What the parser makes of the lines of a fixture. -/
namespace Qsl.StreamFixture

open List
open Decimal (print printInt)
open TextLines (Text text space newline unwords)
open NativeInt (Fits)
open StreamParser (intOf opt sideOf tifOf valueAfter handle handleSnapshot Pass SnapshotPass)
open Oracle (commandOf limitsOf levelViewOf symSnapshotOf)

variable {command : Command}

/-- A word stays whole between blanks and line ends. -/
def Proper (token : Text) : Prop := token ≠ [] ∧ space ∉ token ∧ newline ∉ token

instance instDecidableProper (token : Text) : Decidable (Proper token) :=
  inferInstanceAs (Decidable (_ ∧ _ ∧ _))

section Proper

theorem proper_numeral {t : Text} {n : Nat} (numeral : Decimal.Numeral t n) : Proper t := by
  obtain ⟨filled, digits, -⟩ := numeral
  have other : ∀ byte, Decimal.isDigit byte = false → byte ∉ t := by
    intro byte letter member
    rw [digits byte member] at letter
    cases letter
  exact ⟨filled, other space (by decide), other newline (by decide)⟩

theorem proper_print (n : Nat) : Proper (print n) := proper_numeral (Decimal.numeral_print n)

theorem proper_printInt (i : Int) : Proper (printInt i) := by
  obtain ⟨-, blank, line⟩ := proper_print i.natAbs
  rw [printInt]
  split
  · refine ⟨cons_ne_nil _ _, ?_, ?_⟩
    · exact not_mem_cons_of_ne_of_not_mem (by decide) blank
    · exact not_mem_cons_of_ne_of_not_mem (by decide) line
  · exact proper_print i.natAbs

theorem proper_px (p : Price) : Proper (px p) := proper_printInt p.toInt

theorem proper_optPx (p : Option Price) : Proper (optPx p) := by
  cases p with
  | none => exact (by decide : Proper (text "-"))
  | some p => exact proper_px p

theorem proper_sideCh (side : Side) : Proper (sideCh side) := by
  cases side <;> decide

theorem proper_tifStr (tif : TimeInForce) : Proper (tifStr tif) := by
  cases tif <;> decide

theorem proper_reasonText (reason : RejectReason) : Proper (reasonText reason) := by
  cases reason <;> decide

theorem eventWords_proper (event : EngineEvent) : ∀ token ∈ eventWords event, Proper token := by
  cases event <;>
    simp only [eventWords, forall_mem_cons, proper_print, proper_printInt] <;> decide

theorem cmdWords_proper (named : ∀ name ∈ command.name?, Proper name) :
    ∀ token ∈ cmdWords command, Proper token := by
  cases command with
  | registerSymbol name =>
    simp only [cmdWords, forall_mem_cons, named name rfl]
    decide
  | _ =>
    simp only [cmdWords, forall_mem_cons, proper_print, proper_px, proper_sideCh,
      proper_tifStr]
    decide

theorem commandRejectWords_proper (reason : RejectReason) (command : Command) :
    ∀ tokens ∈ commandRejectWords reason command, ∀ token ∈ tokens, Proper token := by
  cases command <;>
    simp only [commandRejectWords, rejectWords, forall_mem_cons, proper_print,
      proper_reasonText] <;> decide

theorem answerWords_proper (named : ∀ name ∈ command.name?, Proper name) (r : GatewayResult) :
    ∀ tokens ∈ answerWords command r, ∀ token ∈ tokens, Proper token := by
  refine forall_mem_cons.mpr ⟨cmdWords_proper named, ?_⟩
  split
  · intro tokens member
    obtain ⟨event, -, rfl⟩ := mem_map.mp member
    exact eventWords_proper event
  · exact commandRejectWords_proper r.reason command

theorem headerWords_proper (p : FixtureParams) :
    ∀ tokens ∈ headerWords p, ∀ token ∈ tokens, Proper token := by
  simp only [headerWords, metaWords, forall_mem_cons, proper_print]
  decide

theorem symbolWords_proper (s : SymbolSnapshot) :
    ∀ tokens ∈ symbolWords s, ∀ token ∈ tokens, Proper token := by
  have level : ∀ {side : String}, Proper (text side) → ∀ views : List LevelView,
      ∀ tokens ∈ views.map (levelWords s.symbol side), ∀ token ∈ tokens, Proper token := by
    intro side proper views tokens member
    obtain ⟨lv, -, rfl⟩ := mem_map.mp member
    simp only [levelWords, forall_mem_cons, proper_print, proper_px, proper]
    decide
  refine forall_mem_cons.mpr ⟨?_, forall_mem_append.mpr ⟨?_, ?_⟩⟩
  · simp only [forall_mem_cons, proper_print, proper_optPx]
    decide
  · exact level (by decide) s.bids
  · exact level (by decide) s.asks

theorem snapshotWords_proper (snap : EngineSnapshot) (trades : Nat) :
    ∀ tokens ∈ snapshotWords snap trades, ∀ token ∈ tokens, Proper token := by
  refine forall_mem_cons.mpr ⟨?_, ?_⟩
  · simp only [forall_mem_cons, proper_print]
    decide
  · intro tokens member
    obtain ⟨s, -, inside⟩ := mem_flatMap.mp member
    exact symbolWords_proper s tokens inside

section

variable {p : FixtureParams} {flow : List Command}
  (named : ∀ name ∈ flow.filterMap Command.name?, Proper name)

include named

theorem fixtureWords_proper : ∀ tokens ∈ fixtureWords p flow, ∀ token ∈ tokens, Proper token := by
  refine forall_mem_append.mpr ⟨forall_mem_append.mpr ⟨headerWords_proper p, ?_⟩,
    snapshotWords_proper _ _⟩
  intro tokens member
  obtain ⟨⟨command, r⟩, pair, inside⟩ := mem_flatMap.mp member
  refine answerWords_proper ?_ r tokens inside
  intro name found
  exact named name (mem_filterMap.mpr ⟨command, (of_mem_zip pair).1, found⟩)

theorem fixtureWords_blanks :
    ∀ tokens ∈ fixtureWords p flow, ∀ token ∈ tokens, token ≠ [] ∧ space ∉ token := by
  intro tokens member token inside
  obtain ⟨filled, whole, -⟩ := fixtureWords_proper named tokens member token inside
  exact ⟨filled, whole⟩

/-- The fixture is read in the lines it was written in. -/
theorem inputLines_runAndEmit :
    TextLines.inputLines newline (runAndEmit p flow) =
      (fixtureWords p flow).map (unwords space) := by
  rw [runAndEmit_eq]
  refine TextLines.inputLines_join ?_
  intro tokens member
  refine TextLines.not_mem_unwords (by decide) ?_
  intro token inside
  exact (fixtureWords_proper named tokens member token inside).2.2

end

end Proper

/- The first pass: the limits and the commands. -/
section Commands

theorem intOf_printInt {i : Int} (fits : Fits i) : intOf (printInt i) = .ok i := by
  rw [intOf, NativeInt.intOfString?_printInt, if_pos fits]

theorem intOf_print {n : Nat} (small : n < 2 ^ 62) : intOf (print n) = .ok (n : Int) := by
  have fits : Fits n := ⟨by omega, by omega⟩
  rw [intOf, NativeInt.intOfString?_numeral (Decimal.numeral_print n), if_pos fits]

theorem intOf_uint32 (n : UInt32) : intOf (print n.toNat) = .ok (n.toNat : Int) :=
  intOf_print (by have := n.toNat_lt; omega)

theorem sideOf_sideCh (side : Side) : sideOf (sideCh side) = .ok side := by
  cases side <;> rfl

theorem tifOf_tifStr (tif : TimeInForce) : tifOf (tifStr tif) = .ok tif := by
  cases tif <;> rfl

/-- The names, ids and prices of a command can be written down for the oracle. -/
structure Speakable (command : Command) : Prop where
  name : ∀ name ∈ command.name?, Proper name
  id : ∀ id ∈ command.id?, id.toNat < 2 ^ 62
  price : ∀ price ∈ command.price?, Fits price.toInt

theorem handle_cmdWords (speakable : Speakable command) (pass : Pass) :
    handle pass (cmdWords command) =
      .ok { pass with commands := commandOf command :: pass.commands } := by
  obtain ⟨-, ids, prices⟩ := speakable
  have taken : ∀ {rest : List Text},
      StreamParser.parseCommand rest = some (.ok (commandOf command)) →
      handle pass (text "cmd" :: rest) =
        .ok { pass with commands := commandOf command :: pass.commands } := by
    intro rest same
    show StreamParser.handleCommand pass rest = _
    rw [StreamParser.handleCommand, same]
    rfl
  cases command with
  | registerSymbol name => exact taken rfl
  | newLimit symbol id side price quantity tif =>
    apply taken
    simp only [StreamParser.parseCommand, if_true, tifOf_tifStr, px,
      intOf_printInt (prices price rfl), sideOf_sideCh, intOf_print (ids id rfl), intOf_uint32]
    rfl
  | newMarket symbol id side quantity =>
    apply taken
    simp only [StreamParser.parseCommand, if_true, sideOf_sideCh,
      intOf_print (ids id rfl), intOf_uint32]
    rfl
  | cancel symbol id =>
    apply taken
    simp only [StreamParser.parseCommand, if_true, intOf_print (ids id rfl), intOf_uint32]
    rfl
  | modify symbol id price quantity =>
    apply taken
    simp only [StreamParser.parseCommand, if_true, px,
      intOf_printInt (prices price rfl), intOf_print (ids id rfl), intOf_uint32]
    rfl

theorem handle_eventWords (pass : Pass) (event : EngineEvent) :
    handle pass (eventWords event) = .ok pass := by
  cases event <;> rfl

theorem handle_commandRejectWords (pass : Pass) (reason : RejectReason) (command : Command) :
    ∀ tokens ∈ commandRejectWords reason command, handle pass tokens = .ok pass := by
  cases command with
  | registerSymbol name => exact fun tokens absent => by cases absent
  | _ =>
    intro tokens member
    rw [mem_singleton.mp member]
    rfl

/-- The lines of a command add the command, whatever the engine answered. -/
theorem answerWords_commands (speakable : Speakable command) (r : GatewayResult) (pass : Pass) :
    (answerWords command r).foldlM handle pass =
      .ok { pass with commands := commandOf command :: pass.commands } := by
  rw [answerWords, foldlM_cons, handle_cmdWords speakable]
  refine TextLines.foldlM_skip ?_
  split
  · intro tokens member
    obtain ⟨event, -, rfl⟩ := mem_map.mp member
    exact handle_eventWords _ event
  · exact handle_commandRejectWords _ r.reason command

theorem print_ne {key : Text} (lettered : ∃ byte ∈ key, Decimal.isDigit byte = false) (n : Nat) :
    print n ≠ key := by
  rintro rfl
  obtain ⟨byte, member, letter⟩ := lettered
  rw [(Decimal.numeral_print n).2.1 byte member] at letter
  cases letter

theorem valueAfter_key (key : Text) (front : List Text) (absent : ∀ a ∈ front, a ≠ key) (b : Text)
    (tl : List Text) : valueAfter key (front ++ key :: b :: tl) = intOf b := by
  induction front with
  | nil => rw [nil_append, valueAfter, if_pos rfl]
  | cons a front ih =>
    obtain ⟨other, others⟩ := forall_mem_cons.mp absent
    cases front <;> exact (if_neg other).trans (ih others)

/-- Both limits are found in the meta line. -/
theorem handle_metaWords {p : FixtureParams} (small : p.maxNotional.toNat < 2 ^ 62) (pass : Pass) :
    handle pass (metaWords p) = .ok { pass with limits := some (limitsOf p.risk) } := by
  have notional : valueAfter (text "max_notional") (metaWords p) = .ok p.maxNotional.toNat := by
    rw [← intOf_print small]
    refine valueAfter_key _ [text "meta", text "seed", print p.seed.toNat, text "symbols",
      print p.symbols.toNat, text "orders", print p.orders, text "max_qty", print p.maxQty.toNat]
      ?_ _ _
    simp only [forall_mem_cons, ne_eq,
      print_ne ⟨109, (by decide : 109 ∈ text "max_notional"), by decide⟩]
    decide
  have quantity : valueAfter (text "max_qty") (metaWords p) = .ok p.maxQty.toNat := by
    rw [← intOf_uint32]
    refine valueAfter_key _ [text "meta", text "seed", print p.seed.toNat, text "symbols",
      print p.symbols.toNat, text "orders", print p.orders] ?_ _ _
    simp only [forall_mem_cons, ne_eq,
      print_ne ⟨109, (by decide : 109 ∈ text "max_qty"), by decide⟩]
    decide
  show StreamParser.handleMeta pass (metaWords p) = _
  rw [StreamParser.handleMeta, notional, quantity]
  rfl

theorem headerWords_commands {p : FixtureParams} (small : p.maxNotional.toNat < 2 ^ 62)
    (pass : Pass) :
    (headerWords p).foldlM handle pass = .ok { pass with limits := some (limitsOf p.risk) } := by
  show [metaWords p].foldlM handle pass = _
  rw [foldlM_cons, handle_metaWords small]
  rfl

end Commands

/- Lines of the snapshot section are told apart by their first word. -/
section Report

def isSnapshotWords (tokens : List Text) : Bool :=
  tokens.head? = some (text "snapshot") || tokens.head? = some (text "sym") ||
    tokens.head? = some (text "level")

def isSnapshotLine (line : Text) : Bool := isSnapshotWords (StreamParser.words line)

theorem handle_report {tokens : List Text} (report : isSnapshotWords tokens = true) (pass : Pass) :
    handle pass tokens = .ok pass := by
  cases tokens with
  | nil => rfl
  | cons first rest =>
    simp only [isSnapshotWords, head?_cons, Option.some.injEq, Bool.or_eq_true,
      decide_eq_true_eq] at report
    rcases report with (rfl | rfl) | rfl <;> rfl

theorem handleSnapshot_other {tokens : List Text} (other : isSnapshotWords tokens = false)
    (pass : SnapshotPass) : handleSnapshot pass tokens = .ok pass := by
  unfold handleSnapshot
  split
  · rename_i first a b c d
    simp only [isSnapshotWords, head?_cons, Option.some.injEq, Bool.or_eq_false_iff,
      decide_eq_false_iff_not] at other
    rw [if_neg (fun all => other.1.1 all.1), if_neg other.2]
  · rename_i first s bid b ask a orders n
    simp only [isSnapshotWords, head?_cons, Option.some.injEq, Bool.or_eq_false_iff,
      decide_eq_false_iff_not] at other
    rw [if_neg (fun all => other.1.2 all.1)]
  · rfl

theorem symbolWords_report (s : SymbolSnapshot) :
    ∀ tokens ∈ symbolWords s, isSnapshotWords tokens = true := by
  refine forall_mem_cons.mpr ⟨rfl, forall_mem_append.mpr ⟨?_, ?_⟩⟩
  all_goals
    intro tokens member
    obtain ⟨lv, -, rfl⟩ := mem_map.mp member
    rfl

theorem snapshotWords_report (snap : EngineSnapshot) (trades : Nat) :
    ∀ tokens ∈ snapshotWords snap trades, isSnapshotWords tokens = true := by
  refine forall_mem_cons.mpr ⟨rfl, ?_⟩
  intro tokens member
  obtain ⟨s, -, inside⟩ := mem_flatMap.mp member
  exact symbolWords_report s tokens inside

theorem headerWords_other (p : FixtureParams) :
    ∀ tokens ∈ headerWords p, isSnapshotWords tokens = false := by
  simp only [headerWords, forall_mem_cons]
  exact ⟨rfl, rfl, rfl, fun tokens absent => by cases absent⟩

theorem answerWords_other (command : Command) (r : GatewayResult) :
    ∀ tokens ∈ answerWords command r, isSnapshotWords tokens = false := by
  refine forall_mem_cons.mpr ⟨?_, ?_⟩
  · cases command <;> rfl
  split
  · intro tokens member
    obtain ⟨event, -, rfl⟩ := mem_map.mp member
    cases event <;> rfl
  · cases command with
    | registerSymbol name => exact fun tokens absent => by cases absent
    | _ =>
      intro tokens member
      rw [mem_singleton.mp member]
      rfl

end Report

/- The second pass: the snapshot. -/
section Snapshot

/-- The numbers of a symbol's snapshot that are native integers. -/
structure SymbolFits (s : SymbolSnapshot) : Prop where
  bestBid : ∀ p ∈ s.bestBid, Fits p.toInt
  bestAsk : ∀ p ∈ s.bestAsk, Fits p.toInt
  orderCount : s.orderCount < 2 ^ 62
  bids : ∀ lv ∈ s.bids, Fits lv.price.toInt ∧ lv.quantity.toNat < 2 ^ 62
  asks : ∀ lv ∈ s.asks, Fits lv.price.toInt ∧ lv.quantity.toNat < 2 ^ 62

theorem px_ne_dash (p : Price) : px p ≠ text "-" := by
  obtain ⟨filled, digits, -⟩ := Decimal.numeral_print p.toInt.natAbs
  rw [px, printInt]
  split
  · intro same
    exact filled (List.cons.inj same).2
  · exact print_ne ⟨45, by decide, by decide⟩ _

theorem opt_optPx {p : Option Price} (fits : ∀ price ∈ p, Fits price.toInt) :
    opt (optPx p) = .ok (p.map Int64.toInt) := by
  cases p with
  | none => rfl
  | some price =>
    rw [optPx, opt, if_neg (px_ne_dash price), px, intOf_printInt (fits price rfl)]
    rfl

variable {lastSeq nTrades : Int} {cur : ReplayEngine.SymSnapshot}
  {rest : List ReplayEngine.SymSnapshot} {symbol : SymbolId}

/-- The symbol with levels added to one side. -/
def withLevels (cur : ReplayEngine.SymSnapshot) (side : String) (views : List LevelView) :
    ReplayEngine.SymSnapshot :=
  if text side = text "B" then { cur with bidLevels := cur.bidLevels ++ views.map levelViewOf }
  else { cur with askLevels := cur.askLevels ++ views.map levelViewOf }

theorem withLevels_sym (cur : ReplayEngine.SymSnapshot) (side : String) (views : List LevelView) :
    (withLevels cur side views).sym = cur.sym := by
  rw [withLevels]
  split <;> rfl

theorem withLevels_nil (cur : ReplayEngine.SymSnapshot) (side : String) :
    withLevels cur side [] = cur := by
  rw [withLevels]
  split <;> simp

theorem withLevels_cons (cur : ReplayEngine.SymSnapshot) (side : String) (lv : LevelView)
    (views : List LevelView) :
    withLevels (withLevels cur side [lv]) side views = withLevels cur side (lv :: views) := by
  by_cases bid : text side = text "B"
  · simp only [withLevels, bid, if_true, map_cons, append_assoc, singleton_append,
      map_nil]
  · simp only [withLevels, bid, if_false, map_cons, append_assoc, singleton_append,
      map_nil]

/-- A level line behind the line of its symbol. -/
theorem handle_levelWords (current : cur.sym = symbol.toNat) (side : String) {lv : LevelView}
    (fits : Fits lv.price.toInt ∧ lv.quantity.toNat < 2 ^ 62) :
    handleSnapshot ⟨lastSeq, nTrades, cur :: rest⟩ (levelWords symbol side lv) =
      .ok ⟨lastSeq, nTrades, withLevels cur side [lv] :: rest⟩ := by
  rw [levelWords, handleSnapshot, if_neg (fun all => absurd all.1 (by decide)), if_pos rfl]
  simp only [StreamParser.handleLevel, intOf_uint32, intOf_print fits.2, px,
    intOf_printInt fits.1]
  show (if (symbol.toNat : Int) ≠ cur.sym then _ else _) = _
  rw [if_neg (not_not.mpr current.symm)]
  rfl

/-- The levels of one side, in order. -/
theorem levelWords_read (current : cur.sym = symbol.toNat) (side : String)
    {views : List LevelView}
    (fits : ∀ lv ∈ views, Fits lv.price.toInt ∧ lv.quantity.toNat < 2 ^ 62) :
    (views.map (levelWords symbol side)).foldlM handleSnapshot ⟨lastSeq, nTrades, cur :: rest⟩ =
      .ok ⟨lastSeq, nTrades, withLevels cur side views :: rest⟩ := by
  induction views generalizing cur with
  | nil =>
    rw [withLevels_nil]
    rfl
  | cons lv views ih =>
    obtain ⟨first, others⟩ := forall_mem_cons.mp fits
    have later := ih ((withLevels_sym cur side [lv]).trans current) others
    rw [withLevels_cons] at later
    rw [map_cons, foldlM_cons, handle_levelWords current side first]
    exact later

/-- The lines of a symbol add its snapshot. -/
theorem symbolWords_read {s : SymbolSnapshot} (fits : SymbolFits s) (pass : SnapshotPass) :
    (symbolWords s).foldlM handleSnapshot pass =
      .ok { pass with syms := symSnapshotOf s :: pass.syms } := by
  have opened : handleSnapshot pass [text "sym", print s.symbol.toNat, text "bid", optPx s.bestBid,
      text "ask", optPx s.bestAsk, text "orders", print s.orderCount] =
      .ok { pass with syms := ⟨s.symbol.toNat, s.bestBid.map Int64.toInt,
        s.bestAsk.map Int64.toInt, s.orderCount, [], []⟩ :: pass.syms } := by
    simp only [handleSnapshot, and_self, if_true, intOf_print fits.orderCount,
      opt_optPx fits.bestAsk, opt_optPx fits.bestBid, intOf_uint32]
    rfl
  rw [symbolWords, foldlM_cons, opened]
  show List.foldlM handleSnapshot _ (_ ++ _) = _
  rw [foldlM_append, levelWords_read rfl "B" fits.bids]
  show List.foldlM handleSnapshot _ _ = _
  rw [levelWords_read rfl "A" fits.asks]
  rfl

/-- The snapshot section is read as the snapshot. -/
theorem snapshotWords_read {snap : EngineSnapshot} {trades : Nat} (seq : snap.lastSeq < 2 ^ 62)
    (count : trades < 2 ^ 62) (symbols : ∀ s ∈ snap.symbols, SymbolFits s) :
    (snapshotWords snap trades).foldlM handleSnapshot ⟨0, 0, []⟩ =
      .ok ⟨snap.lastSeq, trades, (snap.symbols.map symSnapshotOf).reverse⟩ := by
  have opened : handleSnapshot ⟨0, 0, []⟩ [text "snapshot", text "last_seq", print snap.lastSeq,
      text "trades", print trades] = .ok ⟨snap.lastSeq, trades, []⟩ := by
    simp only [handleSnapshot, and_self, if_true, intOf_print seq, intOf_print count]
    rfl
  have pushed : ∀ (symbols : List SymbolSnapshot) (pass : SnapshotPass),
      symbols.foldl (fun pass s => { pass with syms := symSnapshotOf s :: pass.syms }) pass =
        { pass with syms := (symbols.map symSnapshotOf).reverse ++ pass.syms } := by
    intro symbols
    induction symbols with
    | nil => exact fun pass => rfl
    | cons s symbols ih =>
      intro pass
      rw [foldl_cons, ih, map_cons, reverse_cons, append_assoc]
      rfl
  rw [snapshotWords, foldlM_cons, opened]
  refine (TextLines.foldlM_flatMap (fun s member pass => symbolWords_read (symbols s member) pass)
    _).trans ?_
  rw [pushed, append_nil]

end Snapshot

/- Whole fixtures. -/
section Fixture

variable {p : FixtureParams} {flow : List Command}

/-- The first pass finds the limits and the flow. -/
theorem fixtureWords_commands (speakable : ∀ command ∈ flow, Speakable command)
    (small : p.maxNotional.toNat < 2 ^ 62) :
    (fixtureWords p flow).foldlM handle ⟨none, []⟩ =
      .ok ⟨some (limitsOf p.risk), (flow.map commandOf).reverse⟩ := by
  have pushed : ∀ (pairs : List (Command × GatewayResult)) (pass : Pass),
      pairs.foldl (fun pass pair => { pass with commands := commandOf pair.1 :: pass.commands })
        pass = { pass with commands := ((pairs.map Prod.fst).map commandOf).reverse ++
          pass.commands } := by
    intro pairs
    induction pairs with
    | nil => exact fun pass => rfl
    | cons pair pairs ih =>
      intro pass
      rw [foldl_cons, ih, map_cons, map_cons, reverse_cons,
        append_assoc]
      rfl
  have answers := @TextLines.foldlM_flatMap _ _ _ handle _
    (flow.zip (Machine.run (applyCommand p.risk) (.new .baseline) flow).2)
    (fun pair => answerWords pair.1 pair.2) _
    (fun pair member pass =>
      answerWords_commands (speakable pair.1 (of_mem_zip member).1) pair.2 pass)
    ⟨some (limitsOf p.risk), []⟩
  rw [pushed, map_fst_zip (Machine.run_length _ _).ge, append_nil] at answers
  rw [fixtureWords, foldlM_append, foldlM_append, headerWords_commands small]
  show (List.foldlM handle _ _ >>= _) = _
  rw [answers]
  exact TextLines.foldlM_skip (fun tokens member =>
    handle_report (snapshotWords_report _ _ tokens member) _)

/-- The second pass finds the snapshot. -/
theorem fixtureWords_snapshot {pass : SnapshotPass} :
    (fixtureWords p flow).foldlM handleSnapshot pass =
      (snapshotWords (Machine.run (applyCommand p.risk) (.new .baseline) flow).1.snapshot
        (countTrades flow p.maxQty p.maxNotional)).foldlM handleSnapshot pass := by
  have header : (headerWords p).foldlM handleSnapshot pass = .ok pass :=
    TextLines.foldlM_skip (fun tokens member =>
      handleSnapshot_other (headerWords_other p tokens member) pass)
  rw [fixtureWords, foldlM_append, foldlM_append, header]
  show (List.foldlM handleSnapshot _ _ >>= _) = _
  rw [TextLines.foldlM_skip]
  · rfl
  · intro tokens member
    obtain ⟨pair, -, inside⟩ := mem_flatMap.mp member
    exact handleSnapshot_other (answerWords_other pair.1 pair.2 tokens inside) pass

theorem printInt_natCast (n : Nat) : printInt (n : Int) = print n := by
  rw [printInt, if_neg (by omega), Int.natAbs_natCast]

theorem optStr_map (p : Option Price) : ReplayEngine.optStr (p.map Int64.toInt) = optPx p := by
  cases p <;> rfl

theorem levelWords_line (symbol : SymbolId) (side : String) (lv : LevelView) :
    unwords space (levelWords symbol side lv) =
      ReplayEngine.levelLine symbol.toNat side (levelViewOf lv) := by
  simp [ReplayEngine.levelLine, levelWords, levelViewOf, printInt_natCast, px, unwords,
    List.intercalate, text, space]

theorem symbolWords_lines (s : SymbolSnapshot) :
    (symbolWords s).map (unwords space) = ReplayEngine.symBlock (symSnapshotOf s) := by
  rw [symbolWords, map_cons, map_append, map_map, map_map,
    ReplayEngine.symBlock, cons_append]
  refine congrArg₂ List.cons ?_ ?_
  · simp [symSnapshotOf, optStr_map, printInt_natCast, unwords, List.intercalate, text, space]
  · simp only [symSnapshotOf, map_map]
    refine congrArg₂ _ ?_ ?_ <;> exact map_congr_left fun lv _ => levelWords_line ..

/-- The oracle prints the snapshot in the lines it was written in. -/
theorem snapshotWords_lines (snap : EngineSnapshot) (trades : Nat) :
    (snapshotWords snap trades).map (unwords space) =
      ReplayEngine.snapshotToLines ⟨snap.lastSeq, trades, snap.symbols.map symSnapshotOf⟩ := by
  rw [snapshotWords, map_cons, map_flatMap, ReplayEngine.snapshotToLines,
    flatMap_map]
  refine congrArg₂ List.cons ?_ ?_
  · simp [printInt_natCast, unwords, List.intercalate, text, space]
  · exact congrArg (List.flatMap · _) (funext symbolWords_lines)

/-- The lines of the snapshot section are those behind the answers. -/
theorem fixtureWords_report (p : FixtureParams) (flow : List Command) :
    (fixtureWords p flow).filter isSnapshotWords =
      snapshotWords (Machine.run (applyCommand p.risk) (.new .baseline) flow).1.snapshot
        (countTrades flow p.maxQty p.maxNotional) := by
  have header : (headerWords p).filter isSnapshotWords = [] :=
    filter_eq_nil_iff.mpr fun tokens member => by
      rw [headerWords_other p tokens member]
      exact Bool.false_ne_true
  rw [fixtureWords, filter_append, filter_append, header, nil_append,
    filter_eq_self.mpr (snapshotWords_report _ _), filter_eq_nil_iff.mpr, nil_append]
  intro tokens member
  obtain ⟨pair, -, inside⟩ := mem_flatMap.mp member
  rw [answerWords_other pair.1 pair.2 tokens inside]
  exact Bool.false_ne_true

end Fixture

end Qsl.StreamFixture
