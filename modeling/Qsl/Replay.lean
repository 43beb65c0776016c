import Qsl.EngineCalls
import Qsl.EventLogRecovery

namespace Qsl

open List
open EventLog

/-- Apply every command record in order; other records and payloads that do not decode are
skipped. -/
def replay (engine : MatchingEngine) : List LogRecord → MatchingEngine × List EngineEvent
  | [] => (engine, [])
  | record :: records =>
    if record.type ≠ .commandRecord then replay engine records
    else
      match Command.decodeCommand record.payload with
      | none => replay engine records
      | some command =>
        let (after, produced) := engine.apply command
        let (final, events) := replay after records
        (final, produced ++ events)

/-- Submit commands through the gateway: the engine they leave, the accepted ones and all
events. -/
def submitAll (config : RiskConfig) :
    MatchingEngine → List Command → MatchingEngine × List Command × List EngineEvent
  | engine, [] => (engine, [], [])
  | engine, command :: commands =>
    let (after, result) := applyCommand config engine command
    let (final, accepted, events) := submitAll config after commands
    (final, if result.accepted then command :: accepted else accepted, result.events ++ events)

/-- The market after commands, with all events. -/
def Market.applyAll : Market → List Command → Market × List EngineEvent
  | market, [] => (market, [])
  | market, command :: commands =>
    let (after, produced) := market.apply command
    let (final, events) := after.applyAll commands
    (final, produced ++ events)

namespace MatchingEngine

/-- Every book, and each one yet to be made, takes any order. -/
structure Unlimited (engine : MatchingEngine) : Prop where
  later : (OrderBook.new engine.bookStorage).unlimited = true
  books : ∀ symbol book, engine.findBook symbol = some book → book.unlimited = true

section Unlimited

variable {engine : MatchingEngine}
variable (unlimited : engine.Unlimited)

include unlimited

theorem Unlimited.stores (command : Command) : engine.stores command = true := by
  have spared : ∀ symbol op,
      ((engine.findBook symbol).map (fun book => book.stores op)).getD true = true := by
    intro symbol op
    cases found : engine.findBook symbol with
    | none => rfl
    | some book =>
      have free := unlimited.books symbol book found
      cases book with
      | baseline store => cases op <;> rfl
      | _ => cases free
  cases command with
  | registerSymbol name => rfl
  | _ => exact spared _ _

theorem Unlimited.write {after : OrderBook} (free : after.unlimited = true) (symbol : SymbolId)
    (registry : SymbolRegistry) (seq : SeqNo) :
    Unlimited { engine with
      registry := registry, books := engine.books.insert symbol after, seq := seq } := by
  refine ⟨unlimited.later, ?_⟩
  intro other book found
  rw [findBook, OrderedMap.find?_insert] at found
  split at found
  · cases found
    exact free
  · exact unlimited.books other book found

/-- A call leaves each book in its storage. -/
theorem Unlimited.call (symbol : SymbolId) (op : BookOp) : (engine.call symbol op).1.Unlimited := by
  rcases engine.call_cases symbol op with idle | ⟨book, found, _, done⟩
  · rw [idle]
    exact unlimited
  · have free := unlimited.books symbol book found
    have kept : (book.apply op).1.unlimited = true := by
      cases book with
      | baseline store => cases op <;> rfl
      | _ => cases free
    rw [done]
    exact unlimited.write kept symbol engine.registry _

theorem Unlimited.apply (command : Command) : (engine.apply command).1.Unlimited := by
  cases command with
  | registerSymbol name =>
    simp only [MatchingEngine.apply, registerSymbol]
    split
    · exact ⟨unlimited.later, unlimited.books⟩
    · exact unlimited.write unlimited.later _ _ _
  | newLimit symbol id side price quantity tif => exact unlimited.call symbol (.addLimit ..)
  | newMarket symbol id side quantity => exact unlimited.call symbol (.addMarket ..)
  | cancel symbol id => exact unlimited.call symbol (.cancel id)
  | modify symbol id price quantity => exact unlimited.call symbol (.modify ..)

end Unlimited

end MatchingEngine

section Runs

variable {engine : MatchingEngine}

end Runs

section Log

/-- The records of a log that carry commands carry these. -/
def Logs (records : List LogRecord) (commands : List Command) : Prop :=
  (records.filter (fun record => record.type = .commandRecord)).map LogRecord.payload =
    commands.map Command.encodeCommand

instance (records : List LogRecord) (commands : List Command) : Decidable (Logs records commands) :=
  inferInstanceAs (Decidable (_ = _))

variable {records : List LogRecord} {commands : List Command}

theorem Command.encodeCommand_length {command : Command}
    (named : ∀ name, command = .registerSymbol name → name.length < maxPayload) :
    (Command.encodeCommand command).length ≤ maxPayload := by
  cases command with
  | registerSymbol name => exact named name rfl
  | _ => simp [Command.encodeCommand, maxPayload]

theorem Logs.fit (logs : Logs records commands)
    (named : ∀ name, .registerSymbol name ∈ commands → name.length < maxPayload)
    (others : ∀ record ∈ records, record.type ≠ .commandRecord →
      record.payload.length ≤ maxPayload) : ∀ record ∈ records, record.Fits := by
  intro record member
  by_cases typed : record.type = .commandRecord
  · have listed : record.payload ∈ commands.map Command.encodeCommand := by
      rw [← logs]
      exact mem_map_of_mem (mem_filter.mpr ⟨member, decide_eq_true typed⟩)
    obtain ⟨command, logged, same⟩ := mem_map.mp listed
    show record.payload.length ≤ maxPayload
    rw [← same]
    apply Command.encodeCommand_length
    intro name registers
    exact named name (registers ▸ logged)
  · exact others record member typed

end Log

end Qsl
