import Qsl.Machine
import Qsl.StorageRoom
import Qsl.MarketInvariant

namespace Qsl

namespace Market

variable (storage : Storage) (config : RiskConfig) (market : Market) (command : Command)

/-- The storage mode has room for what the command would leave. -/
def rooms : Bool :=
  match command.target with
  | none => true
  | some (symbol, op) =>
    ((market.books.find? symbol).map (fun book => storage.rooms book op)).getD true

/-- A command straight to an engine with that storage. -/
def offer : Market × List EngineEvent :=
  if market.rooms storage command then market.apply command else (market, [])

/-- A command through the gateway to an engine with that storage. -/
def exchange : Market × GatewayResult :=
  if market.verdict config command ≠ .none then
    (market, .reject (market.verdict config command))
  else if !market.rooms storage command then (market, .reject .storageExhausted)
  else ((market.apply command).1, .accept (market.apply command).2)

/-- The ways a command can go through the gateway. -/
theorem exchange_cases :
    (∃ reason, reason ≠ .none ∧
        market.exchange storage config command = (market, .reject reason)) ∨
      market.verdict config command = .none ∧ market.rooms storage command = true ∧
        market.exchange storage config command =
          ((market.apply command).1, .accept (market.apply command).2) := by
  rw [exchange]
  by_cases allowed : market.verdict config command = .none
  · rw [if_neg (not_not.mpr allowed)]
    cases room : market.rooms storage command with
    | true => exact Or.inr ⟨allowed, rfl, rfl⟩
    | false => exact Or.inl ⟨.storageExhausted, by decide, rfl⟩
  · rw [if_pos allowed]
    exact Or.inl ⟨_, allowed, rfl⟩

end Market

namespace MatchingEngine

/-- A well-kept engine whose books all work in one storage mode. -/
structure Sound (storage : Storage) (engine : MatchingEngine) : Prop where
  valid : engine.Valid
  uniform : engine.Uniform
  storage : engine.bookStorage = storage

theorem sound_new (storage : Storage) : (new storage).Sound storage :=
  ⟨valid_new storage, uniform_new storage, rfl⟩

/-- A command that the storage has no room for leaves any engine alone. -/
theorem apply_turned {engine : MatchingEngine} {command : Command}
    (turned : engine.stores command = false) : engine.apply command = (engine, []) := by
  rcases engine.apply_target command with ⟨name, rfl, _⟩ | ⟨symbol, op, targets, applied⟩
  · cases turned
  · rw [stores, targets] at turned
    rw [applied, call_eq]
    cases found : engine.findBook symbol with
    | none => rfl
    | some book =>
      simp only [found, Option.map_some, Option.getD_some] at turned
      have idle : book.accepts op = false := by
        cases op with
        | addLimit id side price quantity tif =>
          have full : book.canStoreLimit side price quantity tif = false := turned
          rw [OrderBook.accepts, full, Bool.and_false]
        | modify id newPrice newQuantity =>
          have outside : book.canApplyModify id newPrice newQuantity = false := turned
          rw [OrderBook.accepts, outside, Bool.and_false]
        | _ => cases turned
      simp [idle]

section Sound

variable {storage : Storage} {engine : MatchingEngine} (sound : engine.Sound storage)

include sound

theorem Sound.stores_eq (command : Command) :
    engine.stores command = engine.view.rooms storage command := by
  rw [stores, Market.rooms]
  cases command.target with
  | none => rfl
  | some target =>
    simp only [view_find?]
    cases found : engine.findBook target.1 with
    | none => rfl
    | some book =>
      have mode := sound.uniform target.1 book found
      simp only [Option.map_some, Option.getD_some]
      rw [(sound.valid target.1 book found).stores_eq, mode, sound.storage, Storage.rooms_mode]

/-- The engine answers a command as the market with its storage does. -/
theorem Sound.apply (command : Command) :
    (engine.apply command).1.Sound storage ∧
      engine.view.offer storage command =
        ((engine.apply command).1.view, (engine.apply command).2) := by
  have stored := sound.stores_eq command
  obtain ⟨uniform, same⟩ := sound.uniform.apply command
  rw [Market.offer, ← stored]
  cases fits : engine.stores command with
  | false =>
    rw [apply_turned fits]
    exact ⟨sound, rfl⟩
  | true =>
    obtain ⟨kept, left, answer⟩ := sound.valid.apply fits
    exact ⟨⟨kept, uniform, same.trans sound.storage⟩, Prod.ext left.symm answer.symm⟩

/-- The gateway over the engine answers a command as the exchange does. -/
theorem Sound.applyCommand (config : RiskConfig) (command : Command) :
    (applyCommand config engine command).1.Sound storage ∧
      engine.view.exchange storage config command =
        ((Qsl.applyCommand config engine command).1.view,
          (Qsl.applyCommand config engine command).2) := by
  have offered := sound.apply command
  rw [Market.offer, ← sound.stores_eq] at offered
  rw [applyCommand_eq config sound.valid, dispatch, Market.exchange, ← sound.stores_eq]
  by_cases allowed : engine.view.verdict config command = .none
  · cases fits : engine.stores command with
    | false =>
      simp only [allowed, ne_eq, not_true_eq_false, if_false, Bool.not_false, if_true]
      exact ⟨sound, trivial⟩
    | true =>
      rw [fits, if_pos rfl] at offered
      simp only [allowed, ne_eq, not_true_eq_false, if_false, Bool.not_true, Bool.false_eq_true,
        offered.2]
      exact ⟨offered.1, trivial⟩
  · simp only [allowed, ne_eq, not_false_eq_true, if_true]
    exact ⟨sound, trivial⟩

/-- Runs of commands through the gateway. -/
theorem Sound.run_applyCommand (config : RiskConfig) (commands : List Command) :
    let run := Machine.run (Qsl.applyCommand config) engine commands
    run.1.Sound storage ∧
      Machine.run (Market.exchange storage config) engine.view commands = (run.1.view, run.2) :=
  Machine.run_refines _ _ view (Sound storage)
    (fun _ command sound => Sound.applyCommand sound config command) sound commands

end Sound

/-- Runs through the gateway to a fresh engine are runs of the exchange. -/
theorem exchange_run (storage : Storage) (config : RiskConfig) (commands : List Command) :
    let run := Machine.run (Qsl.applyCommand config) (new storage) commands
    run.1.Sound storage ∧
      Machine.run (Market.exchange storage config) .empty commands = (run.1.view, run.2) :=
  (sound_new storage).run_applyCommand config commands

/-- What commands make of a fresh engine, past the gateway or through one with any limits. -/
inductive Reachable (storage : Storage) : MatchingEngine → Prop
  | new : Reachable storage (MatchingEngine.new storage)
  | apply {engine : MatchingEngine} (reached : Reachable storage engine) (command : Command) :
      Reachable storage (engine.apply command).1
  | applyCommand {engine : MatchingEngine} (reached : Reachable storage engine)
      (config : RiskConfig) (command : Command) :
      Reachable storage (Qsl.applyCommand config engine command).1

theorem Reachable.sound {storage : Storage} {engine : MatchingEngine}
    (reached : Reachable storage engine) : engine.Sound storage := by
  induction reached with
  | new => exact sound_new storage
  | apply _ command ih => exact (ih.apply command).1
  | applyCommand _ config command ih => exact (ih.applyCommand config command).1

end MatchingEngine

end Qsl
