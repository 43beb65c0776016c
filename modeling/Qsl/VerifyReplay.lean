import Qsl.LogInvariant
import Qsl.StreamParser

/-- What a run of a program ends with. -/
structure Qsl.Exit where
  status : Nat
  out : TextLines.Text
  err : TextLines.Text
  deriving DecidableEq, Repr

/- The verifier of exported event logs: its parser, its command line and the logs it accepts. -/
namespace Qsl.EventParser

open List

open LogVerifier (Record Fixture Kind Event)
open TextLines (Text text space newline unwords)

def words (line : Text) : List Text := TextLines.words space line

def intOf (tok : Text) : Except Text Int :=
  match NativeInt.intOfString? tok with
  | some n => .ok n
  | none => .error (text "expected integer, got: " ++ tok)

/-- The mutable variables of `parse_lines`. -/
structure Pass where
  records : List Record
  lastSeq : Int
  trades : Int

def Pass.push (pass : Pass) (r : Record) : Pass := { pass with records := r :: pass.records }

def unrecognized (other : List Text) : Except Text Pass :=
  .error (text "unrecognized line: " ++ unwords space other)

def kindOf (first : Text) : Option Kind :=
  if first = text "accept" then some .accept
  else if first = text "cancel" then some .cancel
  else if first = text "modify" then some .modify
  else none

/-- The lines that are read, by their number of words. Arguments are evaluated from the right. -/
def handleRecord (pass : Pass) (first : Text) : List Text → Except Text Pass
  | [id, reason] =>
    if first = text "reject" then do
      let id ← intOf id
      .ok (pass.push (.rej id))
    else unrecognized [first, id, reason]
  | [s, sym, id] =>
    match kindOf first with
    | some kind => do
        let id ← intOf id
        let sym ← intOf sym
        let s ← intOf s
        .ok (pass.push (.ev (.lifecycle kind s sym id)))
    | none => unrecognized [first, s, sym, id]
  | [a, ls, b, t] =>
    if first = text "summary" ∧ a = text "last_seq" ∧ b = text "trades" then do
      let lastSeq ← intOf ls
      let trades ← intOf t
      .ok { pass with lastSeq := lastSeq, trades := trades }
    else unrecognized [first, a, ls, b, t]
  | [s, sym, tk, mk, px, q] =>
    if first = text "trade" then do
      let q ← intOf q
      let px ← intOf px
      let mk ← intOf mk
      let tk ← intOf tk
      let sym ← intOf sym
      let s ← intOf s
      .ok (pass.push (.ev (.trade s sym tk mk px q)))
    else unrecognized [first, s, sym, tk, mk, px, q]
  | rest => unrecognized (first :: rest)

def handle (pass : Pass) : List Text → Except Text Pass
  | [] => .ok pass
  | first :: rest =>
    if first.head? = some StreamParser.hash then .ok pass
    else if first = text "v" ∧ rest.length = 1 then .ok pass
    else if first = text "meta" then .ok pass
    else handleRecord pass first rest

def parseLines (lines : List Text) : Except Text Fixture := do
  let pass ← lines.foldlM (fun pass line => handle pass (words line)) ⟨[], 0, 0⟩
  .ok ⟨pass.records.reverse, pass.lastSeq, pass.trades⟩

def parseFile (contents : Text) : Except Text Fixture :=
  parseLines (TextLines.inputLines newline contents)

end Qsl.EventParser

namespace Qsl

open List

open LogVerifier (Record Fixture Kind Event Life Pass Result)
open TextLines (Text text)

namespace VerifyReplay

def resultLine : Result → Text
  | (name, ok, detail) =>
    text "[" ++ text (if ok then "PASS" else "FAIL") ++ text "] " ++ text name ++
      text (if detail = "" then "" else ": " ++ detail) ++ text "\n"

/-- The file's contents, or what the system says when it cannot be read. -/
def run (file : Except Text Text) : Exit :=
  match file >>= EventParser.parseFile with
  | .error msg => ⟨2, [], text "parse error: " ++ msg ++ text "\n"⟩
  | .ok fx =>
    let checks := LogVerifier.run fx
    let out := checks.flatMap resultLine
    if LogVerifier.allOk checks then
      ⟨0, out ++ text "OK: all replay invariants hold\n", []⟩
    else ⟨1, out, text "FAIL: replay invariant violated\n"⟩

/-- The arguments behind the program's name, and the files it can read. -/
def main (files : Text → Except Text Text) : List Text → Exit
  | [path] => run (files path)
  | _ => ⟨2, [], text "usage: verify_replay <fixture-file>\n"⟩

end VerifyReplay

namespace LogVerifier

/-- What a record does to the order's lifecycle. -/
def Record.kindFor (id : Int) : Record → Option Kind
  | .ev (.lifecycle kind _ _ order) => if order = id then some kind else none
  | _ => none

def lastKind (id : Int) (records : List Record) : Option Kind :=
  (records.filterMap (Record.kindFor id)).getLast?

/-- After these records the order must not act: its last lifecycle event is a cancel, or it has none
and was rejected. -/
def Ended (id : Int) (records : List Record) : Prop :=
  lastKind id records = some .cancel ∨ (lastKind id records = none ∧ .rej id ∈ records)

/-- A log without fault. -/
structure Consistent (fx : Fixture) : Prop where
  rising : (0 :: (eventsOf fx).map Event.seq).IsChain (· < ·)
  positive : ∀ seq symbol taker maker price qty,
    .trade seq symbol taker maker price qty ∈ eventsOf fx → 0 < qty
  alive : ∀ before event after, fx.records = before ++ .ev event :: after →
    ∀ id, event.acts id → ¬ Ended id before
  lastSeq : (((eventsOf fx).map Event.seq).getLast?).getD 0 = fx.lastSeq
  trades : ((eventsOf fx).countP Event.isTrade : Int) = fx.trades

theorem lastKind_snoc (id : Int) (records : List Record) (record : Record) :
    lastKind id (records ++ [record]) = (record.kindFor id).or (lastKind id records) := by
  rw [lastKind, filterMap_append, getLast?_append]
  cases kind : record.kindFor id <;> simp [kind, lastKind]

theorem rising_iff (prev : Int) (events : List Event) :
    (rising prev events).1 = true ↔ (prev :: events.map Event.seq).IsChain (· < ·) := by
  induction events generalizing prev with
  | nil => simp [rising]
  | cons event events ih =>
    rw [rising, map_cons, isChain_cons_cons, ← ih]
    split
    · simp_all
    · simp_all

/-- The verifier's state for an id, told from its lifecycle events and rejections. -/
theorem life_cases (id : Int) (records : List Record) :
    (life id records = .active ↔
      lastKind id records = some .accept ∨ lastKind id records = some .modify) ∧
    ((life id records).ended ↔ Ended id records) := by
  induction records using List.reverseRecOn with
  | nil => simp [life, Life.ended, Ended, lastKind]
  | append_singleton records record ih =>
    obtain ⟨live, ended⟩ := ih
    rw [Ended, life_snoc, lastKind_snoc]
    rw [Ended] at ended
    cases record with
    | rej other =>
      have kinds : lastKind id records = none ∨ lastKind id records = some .cancel ∨
          lastKind id records = some .accept ∨ lastKind id records = some .modify := by
        cases lastKind id records with
        | none => simp
        | some kind => cases kind <;> simp
      by_cases own : other = id
      · by_cases active : life id records = .active
        · rcases live.mp active with last | last <;>
            simp [Life.after, Record.kindFor, active, last, Life.ended]
        · have idle := (not_congr live).mp active
          simp only [Life.after, Record.kindFor, own, Life.ended, mem_append]
          rcases kinds with last | last | last | last <;> simp_all
      · have apart : id ≠ other := fun same => own same.symm
        simpa [Life.after, Record.kindFor, own, apart] using ⟨live, ended⟩
    | ev event =>
      cases event with
      | trade seq symbol taker maker price qty =>
        simpa [Life.after, Record.kindFor] using ⟨live, ended⟩
      | lifecycle kind seq symbol order =>
        by_cases own : order = id
        · cases kind <;> simp [Life.after, Record.kindFor, own, Life.ended]
        · cases kind <;> simpa [Life.after, Record.kindFor, own] using ⟨live, ended⟩

theorem foldl_max_rising {prev : Int} {events : List Event}
    (chain : (prev :: events.map Event.seq).IsChain (· < ·)) :
    events.foldl (fun (m : Int) e => max m e.seq) prev =
      ((events.map Event.seq).getLast?).getD prev := by
  induction events generalizing prev with
  | nil => rfl
  | cons event events ih =>
    rw [map_cons, isChain_cons_cons] at chain
    rw [foldl_cons, max_eq_right (Int.le_of_lt chain.1), ih chain.2, map_cons,
      getLast?_cons]
    rfl

theorem positive_iff {fx : Fixture} :
    (∀ event ∈ eventsOf fx, event.nonPositive = false) ↔
      ∀ seq symbol taker maker price qty,
        .trade seq symbol taker maker price qty ∈ eventsOf fx → 0 < qty := by
  constructor
  · intro all seq symbol taker maker price qty member
    have positive := all _ member
    simpa [Event.nonPositive] using positive
  · intro all event member
    cases event with
    | lifecycle kind seq symbol order => rfl
    | trade seq symbol taker maker price qty =>
      have positive := all seq symbol taker maker price qty member
      simpa [Event.nonPositive] using positive

/-- The verifier passes the logs without fault, and no others. -/
theorem allOk_consistent (fx : Fixture) : allOk (run fx) = true ↔ Consistent fx := by
  rw [allOk_iff, lifetimeChecks_ok, Pass.run_quiet, positiveQty_ok, positive_iff,
    summaryConsistent_ok]
  have rises : (monotonicSeq fx).2.1 = true ↔
      (0 :: (eventsOf fx).map Event.seq).IsChain (· < ·) := rising_iff 0 (eventsOf fx)
  rw [rises]
  constructor
  · rintro ⟨rising, positive, alive, lastSeq, trades⟩
    refine ⟨rising, positive, ?_, ?_, trades⟩
    · intro before event after split id acts ended
      exact alive before event after split id acts ((life_cases id before).2.mpr ended)
    · rw [← foldl_max_rising rising]
      exact lastSeq
  · rintro ⟨rising, positive, alive, lastSeq, trades⟩
    refine ⟨rising, positive, ?_, ?_, trades⟩
    · intro before event after split id acts ended
      exact alive before event after split id acts ((life_cases id before).2.mp ended)
    · rw [foldl_max_rising rising]
      exact lastSeq

end LogVerifier

/-- The verifier's exit status: zero for a readable log without fault, one for a readable log with a
fault, two for all else. -/
theorem VerifyReplay.main_exact (files : Text → Except Text Text) (args : List Text) :
    let read := fun fx => ∃ path, args = [path] ∧
      (files path >>= EventParser.parseFile) = .ok fx
    let status := (VerifyReplay.main files args).status
    (status = 0 ↔ ∃ fx, read fx ∧ LogVerifier.Consistent fx) ∧
      (status = 1 ↔ ∃ fx, read fx ∧ ¬ LogVerifier.Consistent fx) ∧
      (status = 2 ↔ ∀ fx, ¬ read fx) := by
  intro read status
  have unread : status = 2 → (∀ fx, ¬ read fx) →
      (status = 0 ↔ ∃ fx, read fx ∧ LogVerifier.Consistent fx) ∧
        (status = 1 ↔ ∃ fx, read fx ∧ ¬ LogVerifier.Consistent fx) ∧
        (status = 2 ↔ ∀ fx, ¬ read fx) := by
    intro two none
    simp [two, none]
  cases args with
  | nil =>
    refine unread rfl ?_
    rintro fx ⟨path, same, _⟩
    cases same
  | cons path rest =>
    cases rest with
    | cons other rest =>
      refine unread rfl ?_
      rintro fx ⟨path, same, _⟩
      cases same
    | nil =>
      have reads : ∀ fx, read fx ↔ (files path >>= EventParser.parseFile) = .ok fx := by
        intro fx
        constructor
        · rintro ⟨_, same, parsed⟩
          cases same
          exact parsed
        · exact fun parsed => ⟨path, rfl, parsed⟩
      have ends : status = (VerifyReplay.run (files path)).status := rfl
      cases parsed : files path >>= EventParser.parseFile with
      | error msg =>
        refine unread ?_ (fun fx readable => ?_)
        · rw [ends, VerifyReplay.run, parsed]
        · cases ((reads fx).mp readable).symm.trans parsed
      | ok fx =>
        have only : ∀ other, read other ↔ other = fx := fun other => by
          rw [reads, parsed, Except.ok.injEq, eq_comm]
        have checked := LogVerifier.allOk_consistent fx
        simp only [only, exists_eq_left, forall_eq, ends, VerifyReplay.run, parsed,
          ← checked]
        cases LogVerifier.allOk (LogVerifier.run fx) <;> simp

end Qsl
