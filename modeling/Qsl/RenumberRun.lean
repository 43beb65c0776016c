import Qsl.MarketRenaming
import Qsl.SymbolIsolation

/- The run of a renumbered stream next to the run of the stream itself. -/
namespace Qsl

open List
open Market (Renamed)

namespace Renumber

/-- The results of the commands that are not registrations. -/
def answers (commands : List Command) (results : List GatewayResult) : List GatewayResult :=
  ((commands.zip results).filter fun pair => !pair.1.isRegistration).map Prod.snd

theorem answers_registration (name : SymbolName) (commands : List Command) (result : GatewayResult)
    (results : List GatewayResult) :
    answers (.registerSymbol name :: commands) (result :: results) = answers commands results := rfl

theorem answers_other {command : Command} (other : command.name? = none) (commands : List Command)
    (result : GatewayResult) (results : List GatewayResult) :
    answers (command :: commands) (result :: results) = result :: answers commands results := by
  simp [answers, Command.isRegistration, other]

end Renumber

open Renumber (answers answers_registration answers_other)

namespace Market

variable {storage : Storage} {config : RiskConfig} {market : Market}

theorem exchange_registration (name : SymbolName) :
    market.exchange storage config (.registerSymbol name) =
      (market.registerSymbol name, .accept []) := rfl

theorem registerSymbol_fresh {name : SymbolName} (fresh : market.registry.ids.find? name = none) :
    market.registerSymbol name =
      ⟨⟨market.registry.ids.insert name market.registry.next, market.registry.next + 1⟩,
        if market.books.contains market.registry.next then market.books
          else market.books.insert market.registry.next .empty, market.seq⟩ := by
  rw [registerSymbol, SymbolRegistry.intern, fresh]

theorem call_kept (market : Market) (symbol : SymbolId) (op : BookOp) :
    (market.call symbol op).1.registry = market.registry ∧
      ∀ named, (market.call symbol op).1.books.contains named = market.books.contains named := by
  cases known : market.books.find? symbol with
  | none =>
    rw [call_unknown known]
    exact ⟨rfl, fun _ => rfl⟩
  | some book =>
    cases admitted : book.admits op with
    | false =>
      rw [call_turned known admitted]
      exact ⟨rfl, fun _ => rfl⟩
    | true =>
      rw [call_admitted known admitted]
      exact ⟨rfl, contains_write known⟩

/-- Only registrations change what is registered. -/
theorem exchange_kept {command : Command} (other : command.name? = none) :
    (market.exchange storage config command).1.registry = market.registry ∧
      ∀ named, (market.exchange storage config command).1.books.contains named =
        market.books.contains named := by
  have applied : (market.apply command).1.registry = market.registry ∧
      ∀ named, (market.apply command).1.books.contains named = market.books.contains named := by
    cases command <;> first | exact market.call_kept _ _ | cases other
  rcases market.exchange_cases storage config command with ⟨_, _, rejected⟩ | ⟨_, _, accepted⟩
  · rw [rejected]
    exact ⟨rfl, fun _ => rfl⟩
  · rw [accepted]
    exact applied

end Market

/-- How far the two runs are: the registrations before have owned the symbols below `oldSym`, of
which `count` were kept. -/
structure Abreast (symRemap : SymbolRemap) (symbols : SymbolId → SymbolId) (ids : OrderId → OrderId)
    (referenced : List SymbolId) (oldSym : SymbolId) (count : Nat) (rest : List Command)
    (market other : Market) : Prop where
  renamed : Renamed symbols ids (· ∈ referenced) market other
  next : market.registry.next = oldSym
  unused : ∀ name ∈ rest.filterMap Command.name?, market.registry.ids.find? name = none
  unique : (rest.filterMap Command.name?).Nodup
  next' : other.registry.next = UInt32.ofNat count
  unused' : ∀ symbol : SymbolId, count ≤ symbol.toNat →
    other.registry.ids.find? (renumberedName symbol) = none
  owned : ∀ symbol ∈ ownedSymbols oldSym rest,
    symRemap.find? symbol = if symbol ∈ referenced then some (symbols symbol) else none
  numbered : ∃ more, (ownedSymbols oldSym rest).filterMap symRemap.find? =
    (List.range' count more).map UInt32.ofNat ∧ count + more ≤ 2 ^ 32

namespace Abreast

variable {symRemap : SymbolRemap} {symbols : SymbolId → SymbolId} {ids : OrderId → OrderId}
  {referenced : List SymbolId} {oldSym : SymbolId} {count : Nat} {rest : List Command}
  {market other : Market} {storage : Storage} {config : RiskConfig}

/-- A registration that is left out. -/
theorem drop {name : SymbolName}
    (abreast : Abreast symRemap symbols ids referenced oldSym count (.registerSymbol name :: rest)
      market other) (ignored : oldSym ∉ referenced) :
    Abreast symRemap symbols ids referenced (oldSym + 1) count rest (market.registerSymbol name)
      other := by
  have missing : symRemap.find? oldSym = none := by
    rw [abreast.owned oldSym mem_cons_self, if_neg ignored]
  obtain ⟨first, unique⟩ := nodup_cons.mp abreast.unique
  have fresh := abreast.unused name mem_cons_self
  obtain ⟨more, remaining, small⟩ := abreast.numbered
  rw [ownedSymbols, filterMap_cons_none missing] at remaining
  rw [Market.registerSymbol_fresh fresh, abreast.next]
  refine ⟨?_, rfl, ?_, unique, abreast.next', abreast.unused',
    fun symbol later => abreast.owned symbol (mem_cons_of_mem _ later), more, remaining, small⟩
  · split
    · exact ⟨abreast.renamed.seq, abreast.renamed.book, abreast.renamed.only⟩
    · exact abreast.renamed.untracked ignored _ _
  · intro later member
    have differ : later ≠ name := fun same => first (same ▸ member)
    rw [OrderedMap.find?_insert, if_neg differ]
    exact abreast.unused later (mem_cons_of_mem _ member)

/-- A registration that stays gets the next new id in the other market. -/
theorem keep {name : SymbolName} (distinct : Function.Injective symbols)
    (abreast : Abreast symRemap symbols ids referenced oldSym count (.registerSymbol name :: rest)
      market other) (asked : oldSym ∈ referenced) :
    symbols oldSym = UInt32.ofNat count ∧
      Abreast symRemap symbols ids referenced (oldSym + 1) (count + 1) rest
        (market.registerSymbol name) (other.registerSymbol (renumberedName (symbols oldSym))) := by
  have found : symRemap.find? oldSym = some (symbols oldSym) := by
    rw [abreast.owned oldSym mem_cons_self, if_pos asked]
  obtain ⟨first, unique⟩ := nodup_cons.mp abreast.unique
  have fresh := abreast.unused name mem_cons_self
  obtain ⟨more, remaining, small⟩ := abreast.numbered
  rw [ownedSymbols, filterMap_cons_some found] at remaining
  cases more with
  | zero => cases remaining
  | succ more =>
    rw [range'_succ, map_cons] at remaining
    obtain ⟨number, later⟩ := List.cons.inj remaining
    have value : (UInt32.ofNat count).toNat = count :=
      UInt32.toNat_ofNat_of_lt' (by change count < 2 ^ 32; omega)
    have fresh' : other.registry.ids.find? (renumberedName (symbols oldSym)) = none :=
      abreast.unused' _ (by rw [number, value])
    have known := abreast.renamed.contains asked
    refine ⟨number, ?_⟩
    rw [Market.registerSymbol_fresh fresh, Market.registerSymbol_fresh fresh', abreast.next,
      abreast.next', ← number, known]
    refine ⟨?_, rfl, ?_, unique, ?_, ?_,
      fun symbol later => abreast.owned symbol (mem_cons_of_mem _ later), more, later,
      by omega⟩
    · split
      · exact ⟨abreast.renamed.seq, abreast.renamed.book, abreast.renamed.only⟩
      · rw [abreast.renamed.seq]
        exact abreast.renamed.insert distinct asked .empty _ _ _
    · intro later member
      have differ : later ≠ name := fun same => first (same ▸ member)
      rw [OrderedMap.find?_insert, if_neg differ]
      exact abreast.unused later (mem_cons_of_mem _ member)
    · rw [number]
      exact (UInt32.ofNat_add count 1).symm
    · intro symbol above
      have differ : renumberedName symbol ≠ renumberedName (symbols oldSym) := by
        intro same
        rw [renumberedName_injective same, number, value] at above
        omega
      rw [OrderedMap.find?_insert, if_neg differ]
      exact abreast.unused' symbol (by omega)

/-- Any other command is answered alike. -/
theorem answer {command : Command} {symbol : SymbolId} (distinct : Function.Injective symbols)
    (apart : Function.Injective ids)
    (abreast : Abreast symRemap symbols ids referenced oldSym count (command :: rest) market other)
    (nameless : command.name? = none) (named : command.symbol? = some symbol)
    (asked : symbol ∈ referenced) :
    Abreast symRemap symbols ids referenced oldSym count rest
        (market.exchange storage config command).1
        (other.exchange storage config (command.rename symbols ids)).1 ∧
      (other.exchange storage config (command.rename symbols ids)).2 =
        (market.exchange storage config command).2.rename symbols ids := by
  obtain ⟨renamed, same⟩ := abreast.renamed.exchange distinct apart named asked storage config
  have nameless' := Command.rename_name? nameless symbols ids
  have registry := (@Market.exchange_kept storage config market _ nameless).1
  have registry' := (@Market.exchange_kept storage config other _ nameless').1
  refine ⟨⟨renamed, ?_, ?_, ?_, ?_, ?_, ?_, ?_⟩, same⟩
  · rw [registry]
    exact abreast.next
  · rw [registry, ← filterMap_cons_none nameless]
    exact abreast.unused
  · rw [← filterMap_cons_none nameless]
    exact abreast.unique
  · rw [registry']
    exact abreast.next'
  · rw [registry']
    exact abreast.unused'
  · rw [← ownedSymbols_other nameless]
    exact abreast.owned
  · rw [← ownedSymbols_other nameless]
    exact abreast.numbered

/-- A registration adds a book of the symbol it owns at most. -/
theorem registered_within {name : SymbolName}
    (abreast : Abreast symRemap symbols ids referenced oldSym count (.registerSymbol name :: rest)
      market other) {symbol : SymbolId}
    (known : (market.registerSymbol name).books.contains symbol = true ∨
      symbol ∈ ownedSymbols (oldSym + 1) rest) :
    market.books.contains symbol = true ∨ symbol ∈ oldSym :: ownedSymbols (oldSym + 1) rest := by
  rcases known with known | later
  · rw [Market.registerSymbol_fresh (abreast.unused name mem_cons_self),
      abreast.next] at known
    split at known
    · exact .inl known
    · rw [OrderedMap.contains, OrderedMap.find?_insert] at known
      split at known
      · rename_i same
        exact .inr (same ▸ mem_cons_self)
      · exact .inl known
  · exact .inr (mem_cons_of_mem _ later)

/-- The whole of both runs. -/
theorem run {ranks : OrderId → OrderId} (distinct : Function.Injective symbols)
    (apart : Function.Injective ids)
    (abreast : Abreast symRemap symbols ids referenced oldSym count rest market other)
    (asked : ∀ symbol ∈ collectReferencedSymbols rest,
      symbol ∈ referenced ∧ remapSymbol symRemap symbol = symbols symbol)
    (ranked : ∀ id ∈ rest.filterMap Command.id?, ranks id = ids id) :
    let run := Machine.run (Market.exchange storage config) market rest
    let run' := Machine.run (Market.exchange storage config) other
      (relabel symRemap ranks oldSym rest)
    Renamed symbols ids (· ∈ referenced) run.1 run'.1 ∧
      answers (relabel symRemap ranks oldSym rest) run'.2 =
        (answers rest run.2).map (GatewayResult.rename symbols ids) ∧
      ∀ symbol, run.1.books.contains symbol = true →
        market.books.contains symbol = true ∨ symbol ∈ ownedSymbols oldSym rest := by
  induction rest using Command.registration_rec generalizing oldSym count market other with
  | nil => exact ⟨abreast.renamed, rfl, fun _ known => .inl known⟩
  | registration name rest ih =>
    by_cases wanted : oldSym ∈ referenced
    · obtain ⟨-, later⟩ := abreast.keep distinct wanted
      have found : symRemap.find? oldSym = some (symbols oldSym) := by
        rw [abreast.owned oldSym mem_cons_self, if_pos wanted]
      obtain ⟨final, same, kept⟩ := ih later asked ranked
      rw [relabel, appendRenumberedRegistration, found]
      exact ⟨final, same, fun symbol known => abreast.registered_within (kept symbol known)⟩
    · obtain ⟨final, same, kept⟩ := ih (abreast.drop wanted) asked ranked
      have missing : symRemap.find? oldSym = none := by
        rw [abreast.owned oldSym mem_cons_self, if_neg wanted]
      rw [relabel, appendRenumberedRegistration, missing]
      exact ⟨final, same, fun symbol known => abreast.registered_within (kept symbol known)⟩
  | other command rest symbol id nameless named numbered ih =>
    rw [collectReferencedSymbols, filterMap_cons_some named] at asked
    rw [filterMap_cons_some numbered] at ranked
    obtain ⟨here, there⟩ := forall_mem_cons.mp asked
    obtain ⟨rank, later⟩ := forall_mem_cons.mp ranked
    obtain ⟨next, same⟩ := @answer _ _ _ _ _ _ _ _ _ storage config _ _ distinct apart abreast
      nameless named here.1
    obtain ⟨final, answered, kept⟩ := ih next there later
    have nameless' := Command.rename_name? nameless symbols ids
    rw [relabel_other nameless, Command.rename_congr named numbered here.2 rank]
    refine ⟨final, ?_, ?_⟩
    · rw [Machine.run_cons, Machine.run_cons, answers_other nameless', answers_other nameless,
        map_cons, same, answered]
    · intro symbol known
      rw [ownedSymbols_other nameless, ← (Market.exchange_kept nameless).2 symbol]
      exact kept symbol known

end Abreast

end Qsl
