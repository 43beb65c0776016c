import Qsl.RenumberRun
import Mathlib.Data.FinEnum
import Mathlib.Data.Fintype.Sum

namespace Qsl

open List
open Renumber (answers answers_registration answers_other)

variable {count : Nat}

/-- The number of trades among the events of the results. -/
def tradeCount (results : List GatewayResult) : Nat :=
  (results.map fun result => result.events.countP EngineEvent.isTrade).sum

/-- A fresh engine with the default storage behind a gateway. -/
def countTrades (commands : List Command) (maxQty : Quantity) (maxNotional : QuantityTotal) : Nat :=
  tradeCount (Machine.run (applyCommand ⟨maxQty, maxNotional⟩) (.new .baseline) commands).2

/-- Two streams that run alike on fresh engines under some injective renamings: the other commands
correspond, they have the same results, and the snapshots show the same symbols but for some that
no command refers to. -/
def SameUpToNames (storage : Storage) (config : RiskConfig) (commands other : List Command) :
    Prop :=
  let run := Machine.run (applyCommand config) (.new storage) commands
  let run' := Machine.run (applyCommand config) (.new storage) other
  ∃ (symbols : SymbolId → SymbolId) (ids : OrderId → OrderId) (shown : SymbolId → Bool),
    Function.Injective symbols ∧ Function.Injective ids ∧
    (∀ symbol ∈ collectReferencedSymbols commands, shown symbol = true) ∧
    other.filter (!·.isRegistration) =
      (commands.filter (!·.isRegistration)).map (Command.rename symbols ids) ∧
    answers other run'.2 = (answers commands run.2).map (GatewayResult.rename symbols ids) ∧
    tradeCount run'.2 = tradeCount run.2 ∧
    run'.1.snapshot = ⟨run.1.snapshot.lastSeq,
      (run.1.snapshot.symbols.filter (fun view => shown view.symbol)).map
        (SymbolSnapshot.rename symbols)⟩

/-- Whatever is kept apart on some values can be extended to all of a finite type. -/
theorem exists_injective_extension {α : Type} [Fintype α] [DecidableEq α] {f : α → α}
    {values : List α} (apart : ∀ a ∈ values, ∀ b ∈ values, f a = f b → a = b) :
    ∃ g : α → α, Function.Injective g ∧ ∀ a ∈ values, f a = g a := by
  have injOn : Set.InjOn f values.toFinset := by
    intro a inA b inB same
    exact apart a (by simpa using inA) b (by simpa using inB) same
  obtain ⟨g, agree⟩ := @Finset.exists_equiv_extend_of_card_eq α α _ _ Finset.univ
    Finset.card_univ.symm _ f (Finset.subset_univ _) injOn
  refine ⟨fun a => (g a).val, fun a b same => g.injective (Subtype.ext same), ?_⟩
  intro a member
  exact (agree a (mem_toFinset.mpr member)).symm

section Order

theorem mem_symbolsBelow {symbol : SymbolId} (below : symbol.toNat < count) :
    symbol ∈ symbolsBelow count :=
  mem_map.mpr ⟨symbol.toNat, mem_range.mpr below, UInt32.ofNat_toNat⟩

theorem symbolsBelow_add (count more : Nat) :
    symbolsBelow (count + more) =
      symbolsBelow count ++ ((List.range more).map (count + ·)).map UInt32.ofNat := by
  rw [symbolsBelow, range_add, map_append, symbolsBelow]

theorem symbolsBelow_sorted (small : count ≤ 2 ^ 32) : (symbolsBelow count).Pairwise (· < ·) := by
  rw [symbolsBelow, pairwise_map]
  refine pairwise_lt_range.imp_of_mem ?_
  intro i j inI inJ below
  rw [mem_range] at inI inJ
  rw [UInt32.lt_iff_toNat_lt, UInt32.toNat_ofNat_of_lt' (Nat.lt_of_lt_of_le inI small),
    UInt32.toNat_ofNat_of_lt' (Nat.lt_of_lt_of_le inJ small)]
  exact below

variable {commands : List Command} (unique : (keptSymbols commands).Nodup)

include unique

/-- The kept symbols stand in the order of their ids: an id that wrapped around would be there
twice. -/
theorem keptSymbols_sorted : (keptSymbols commands).Pairwise (· < ·) := by
  rw [keptSymbols, ownedSymbols_zero] at unique ⊢
  generalize (commands.filterMap Command.name?).length = count at unique ⊢
  by_cases small : count ≤ 2 ^ 32
  · exact (symbolsBelow_sorted small).filter _
  · obtain ⟨more, rfl⟩ := Nat.exists_eq_add_of_le (Nat.le_of_not_le small)
    rw [symbolsBelow_add, filter_append] at unique ⊢
    have apart := (nodup_append.mp unique).2.2
    have again : (((List.range more).map (2 ^ 32 + ·)).map UInt32.ofNat).filter
        (· ∈ collectReferencedSymbols commands) = [] := by
      rw [eq_nil_iff_forall_not_mem]
      intro symbol member
      refine apart symbol ?_ symbol member rfl
      exact mem_filter.mpr ⟨mem_symbolsBelow symbol.toNat_lt, (mem_filter.mp member).2⟩
    rw [again, append_nil]
    exact (symbolsBelow_sorted (Nat.le_refl _)).filter _

theorem remapSymbol_lt {symbol other : SymbolId} (kept : symbol ∈ keptSymbols commands)
    (kept' : other ∈ keptSymbols commands) (below : symbol < other) :
    remapSymbol (symbolRemap commands) symbol < remapSymbol (symbolRemap commands) other := by
  have place := idxOf_lt_length_iff.mpr kept
  have place' := idxOf_lt_length_iff.mpr kept'
  have small := keptSymbols_length unique
  have ordered : (keptSymbols commands).idxOf symbol < (keptSymbols commands).idxOf other := by
    rcases Nat.lt_trichotomy ((keptSymbols commands).idxOf symbol)
      ((keptSymbols commands).idxOf other) with earlier | same | later
    · exact earlier
    · rw [(idxOf_inj kept).mp same] at below
      exact absurd below (UInt32.lt_irrefl other)
    · have reversed :=
        pairwise_iff_getElem.mp (keptSymbols_sorted unique) _ _ place' place later
      rw [getElem_idxOf, getElem_idxOf] at reversed
      exact absurd below (UInt32.lt_asymm reversed)
  rw [remapSymbol_kept unique kept, remapSymbol_kept unique kept', UInt32.lt_iff_toNat_lt,
    UInt32.toNat_ofNat_of_lt' (Nat.lt_of_lt_of_le place small),
    UInt32.toNat_ofNat_of_lt' (Nat.lt_of_lt_of_le place' small)]
  exact ordered

omit unique in
/-- A symbol that commands refer to and no registration owns keeps an id above all new ones. -/
theorem remapSymbol_unowned {symbol : SymbolId}
    (referenced : symbol ∈ collectReferencedSymbols commands)
    (unowned : symbol ∉ keptSymbols commands) :
    remapSymbol (symbolRemap commands) symbol = symbol ∧
      (keptSymbols commands).length ≤ symbol.toNat := by
  refine ⟨by rw [remapSymbol, symbolRemap_missing unowned, Option.getD_none], ?_⟩
  have few : (keptSymbols commands).length ≤ (commands.filterMap Command.name?).length := by
    have filtered := length_filter_le (· ∈ collectReferencedSymbols commands)
      (ownedSymbols 0 commands)
    rw [ownedSymbols_zero, symbolsBelow, length_map, length_range] at filtered
    rwa [keptSymbols, ownedSymbols_zero]
  refine Nat.le_trans few (Nat.le_of_not_lt fun below => unowned ?_)
  rw [keptSymbols, ownedSymbols_zero]
  exact mem_filter.mpr ⟨mem_symbolsBelow below, decide_eq_true referenced⟩

/-- New ids keep all referenced symbols apart. -/
theorem remapSymbol_apart :
    ∀ symbol ∈ collectReferencedSymbols commands, ∀ other ∈ collectReferencedSymbols commands,
      remapSymbol (symbolRemap commands) symbol = remapSymbol (symbolRemap commands) other →
        symbol = other := by
  have differ : ∀ symbol ∈ collectReferencedSymbols commands,
      ∀ other ∈ collectReferencedSymbols commands, symbol ∈ keptSymbols commands →
      other ∉ keptSymbols commands →
      remapSymbol (symbolRemap commands) symbol ≠ remapSymbol (symbolRemap commands) other := by
    intro symbol _ other referenced kept unowned same
    obtain ⟨self, above⟩ := remapSymbol_unowned referenced unowned
    have place := idxOf_lt_length_iff.mpr kept
    have value := congrArg UInt32.toNat same
    rw [remapSymbol_kept unique kept, self, UInt32.toNat_ofNat_of_lt'
      (Nat.lt_of_lt_of_le place (keptSymbols_length unique))] at value
    omega
  intro symbol asked other asked' same
  by_cases kept : symbol ∈ keptSymbols commands <;>
    by_cases kept' : other ∈ keptSymbols commands
  · exact remapSymbol_injective unique kept kept' same
  · exact absurd same (differ symbol asked other asked' kept kept')
  · exact absurd same.symm (differ other asked' symbol asked kept' kept)
  · rwa [(remapSymbol_unowned asked kept).1, (remapSymbol_unowned asked' kept').1] at same

end Order

section Results

variable (symbols : SymbolId → SymbolId) (ids : OrderId → OrderId)

theorem tradeCount_rename (results : List GatewayResult) :
    tradeCount (results.map (GatewayResult.rename symbols ids)) = tradeCount results := by
  have traded : ∀ result : GatewayResult,
      (result.rename symbols ids).events.countP EngineEvent.isTrade =
        result.events.countP EngineEvent.isTrade := by
    intro result
    rw [GatewayResult.rename, countP_map]
    congr 1
    funext event
    cases event <;> rfl
  simp only [tradeCount, map_map, Function.comp_def, traded]

/-- Registrations do not trade. -/
theorem tradeCount_answers (storage : Storage) (config : RiskConfig) (market : Market)
    (commands : List Command) :
    tradeCount (answers commands (Machine.run (Market.exchange storage config) market commands).2) =
      tradeCount (Machine.run (Market.exchange storage config) market commands).2 := by
  induction commands using Command.registration_rec generalizing market with
  | nil => rfl
  | registration name rest ih =>
    rw [Machine.run_cons]
    rw [answers_registration, ih, Market.exchange_registration]
    exact (Nat.zero_add _).symm
  | other command rest _ _ other _ _ ih =>
    rw [Machine.run_cons]
    rw [answers_other other]
    simp only [tradeCount, map_cons, sum_cons] at ih ⊢
    rw [ih]

variable {symbols ids}

theorem relabel_others {symRemap : SymbolRemap} {ranks : OrderId → OrderId} {oldSym : SymbolId}
    {commands : List Command}
    (asked : ∀ symbol ∈ collectReferencedSymbols commands,
      remapSymbol symRemap symbol = symbols symbol)
    (ranked : ∀ id ∈ commands.filterMap Command.id?, ranks id = ids id) :
    (relabel symRemap ranks oldSym commands).filter (!·.isRegistration) =
      (commands.filter (!·.isRegistration)).map (Command.rename symbols ids) := by
  induction commands using Command.registration_rec generalizing oldSym with
  | nil => rfl
  | registration name rest ih =>
    have dropped : (appendRenumberedRegistration symRemap oldSym).filter
        (!·.isRegistration) = [] := by
      rw [appendRenumberedRegistration]
      cases symRemap.find? oldSym <;> rfl
    rw [relabel, filter_append, dropped, nil_append, ih asked ranked]
    rfl
  | other command rest symbol id other named numbered ih =>
    rw [collectReferencedSymbols, filterMap_cons_some named] at asked
    rw [filterMap_cons_some numbered] at ranked
    obtain ⟨here, there⟩ := forall_mem_cons.mp asked
    obtain ⟨rank, later⟩ := forall_mem_cons.mp ranked
    have counted : (!command.isRegistration) = true := by
      rw [Command.isRegistration, other]
      rfl
    have counted' : (!(command.rename symbols ids).isRegistration) = true := by
      cases command <;> first | rfl | cases other
    rw [relabel_other other, Command.rename_congr named numbered here rank, filter_cons,
      if_pos counted', ih there later, filter_cons, if_pos counted, map_cons]

end Results

/-- Nothing is registered yet. -/
theorem abreast_empty {commands : List Command} {symbols : SymbolId → SymbolId}
    (ids : OrderId → OrderId) (unique : (commands.filterMap Command.name?).Nodup)
    (kept : (keptSymbols commands).Nodup)
    (agree : ∀ symbol ∈ collectReferencedSymbols commands,
      remapSymbol (symbolRemap commands) symbol = symbols symbol) :
    Abreast (symbolRemap commands) symbols ids (collectReferencedSymbols commands) 0 0 commands
      .empty .empty where
  renamed := ⟨rfl, fun _ _ => rfl, fun _ known => Bool.noConfusion known⟩
  next := rfl
  unused := fun _ _ => rfl
  unique := unique
  next' := rfl
  unused' := fun _ _ => rfl
  owned := by
    intro symbol owned
    split
    · rename_i asked
      rw [symbolRemap_kept (mem_filter.mpr ⟨owned, decide_eq_true asked⟩), agree symbol asked]
    · rename_i ignored
      apply symbolRemap_missing
      intro member
      exact ignored (of_decide_eq_true (mem_filter.mp member).2)
  numbered := by
    refine ⟨(keptSymbols commands).length, ?_, ?_⟩
    · rw [ownedSymbols_kept, keptSymbols_map kept, symbolsBelow, range_eq_range']
    · rw [Nat.zero_add]
      exact keptSymbols_length kept

/-- A stream whose kept symbols are owned once runs like its renumbering. -/
theorem renumber_same {commands : List Command} (storage : Storage) (config : RiskConfig)
    (unique : (commands.filterMap Command.name?).Nodup) (kept : (keptSymbols commands).Nodup) :
    SameUpToNames storage config commands (renumber commands) := by
  obtain ⟨symbols, distinct, agree⟩ := exists_injective_extension (remapSymbol_apart kept)
  obtain ⟨ids, apart, ranked⟩ := exists_injective_extension
    (fun id seen other seen' => @idRank_injective commands id other seen seen')
  have ranked : ∀ id ∈ commands.filterMap Command.id?, idRank (seenIds commands) id = ids id :=
    fun id listed => ranked id (mem_seenIds.mpr listed)
  obtain ⟨sound, ran⟩ := MatchingEngine.exchange_run storage config commands
  obtain ⟨sound', ran'⟩ := MatchingEngine.exchange_run storage config (renumber commands)
  obtain ⟨final, same, within⟩ := @Abreast.run _ _ _ _ _ _ _ _ _ storage config _ distinct apart
    (abreast_empty ids unique kept agree) (fun symbol asked => ⟨asked, agree symbol asked⟩) ranked
  rw [← renumber_unique unique] at final same
  have trades := tradeCount_answers storage config .empty commands
  have trades' := tradeCount_answers storage config .empty (renumber commands)
  rw [ran] at final same within trades
  rw [ran'] at final same trades'
  refine ⟨symbols, ids, (decide <| · ∈ collectReferencedSymbols commands), distinct, apart,
    fun symbol asked => decide_eq_true asked, ?_, same, ?_, ?_⟩
  · rw [renumber_unique unique]
    exact relabel_others agree ranked
  · rw [← trades', same, tradeCount_rename, trades]
  · rw [sound.valid.snapshot_eq, sound'.valid.snapshot_eq]
    apply final.snapshot
    intro symbol other asked asked' known known' below
    have held : ∀ symbol ∈ collectReferencedSymbols commands,
        (Machine.run (applyCommand config) (.new storage) commands).1.view.books.contains symbol =
          true → symbol ∈ keptSymbols commands := by
      intro symbol asked known
      rcases within symbol known with impossible | owned
      · exact Bool.noConfusion impossible
      · exact mem_filter.mpr ⟨owned, decide_eq_true asked⟩
    rw [← agree symbol asked, ← agree other asked']
    exact remapSymbol_lt kept (held symbol asked known) (held other asked' known') below

section Identity

theorem Command.rename_id (command : Command) : command.rename id id = command := by
  cases command <;> rfl

theorem GatewayResult.rename_id (result : GatewayResult) : result.rename id id = result := by
  have events : result.events.map (EngineEvent.rename id id) = result.events := by
    refine (map_congr_left (g := id) fun event _ => ?_).trans (map_id _)
    cases event <;> rfl
  rw [rename, events]

/-- A stream runs like itself. -/
theorem sameUpToNames_self (storage : Storage) (config : RiskConfig) (commands : List Command) :
    SameUpToNames storage config commands commands := by
  refine ⟨id, id, fun _ => true, Function.injective_id, Function.injective_id, fun _ _ => rfl, ?_,
    ?_, rfl, ?_⟩
  · rw [funext Command.rename_id]
    exact (map_id _).symm
  · rw [funext GatewayResult.rename_id]
    exact (map_id _).symm
  · rw [filter_true]
    exact congrArg (EngineSnapshot.mk _) (map_id _).symm

end Identity

/-- Up to 2^32 registrations own a symbol each. -/
theorem ownedSymbols_count_le {commands : List Command}
    (few : (commands.filterMap Command.name?).length ≤ 2 ^ 32) (symbol : SymbolId) :
    (ownedSymbols 0 commands).count symbol ≤ 1 := by
  have sorted := symbolsBelow_sorted few
  rw [← ownedSymbols_zero] at sorted
  exact nodup_iff_count_le_one.mp (sorted.imp UInt32.ne_of_lt) symbol

/-- Renumbering preserves what a stream does, provided that no symbol that a command refers to is
owned by two of the registrations: ids wrap around after 2^32 of them. A stream that registers a
name twice is left as it is. -/
theorem renumber_preserves (storage : Storage) (config : RiskConfig) (commands : List Command)
    (single : (commands.filterMap Command.name?).Nodup →
      ∀ symbol ∈ collectReferencedSymbols commands, (ownedSymbols 0 commands).count symbol ≤ 1) :
    SameUpToNames storage config commands (renumber commands) ∧
      countTrades (renumber commands) config.maxOrderQuantity config.maxNotional =
        countTrades commands config.maxOrderQuantity config.maxNotional := by
  have same : ∀ storage, SameUpToNames storage config commands (renumber commands) := by
    intro storage
    by_cases unique : (commands.filterMap Command.name?).Nodup
    · refine renumber_same storage config unique (nodup_iff_count_le_one.mpr ?_)
      intro symbol
      by_cases asked : symbol ∈ collectReferencedSymbols commands
      · exact Nat.le_trans (filter_sublist.count_le symbol) (single unique symbol asked)
      · have missing : symbol ∉ keptSymbols commands := fun kept =>
          asked (of_decide_eq_true (mem_filter.mp kept).2)
        rw [count_eq_zero.mpr missing]
        exact Nat.zero_le 1
    · rw [renumber_repeated unique]
      exact sameUpToNames_self storage config commands
  obtain ⟨_, _, _, _, _, _, _, _, trades, _⟩ := same .baseline
  exact ⟨same storage, trades⟩

/-- Two orders on the second of two symbols. -/
theorem renumber_preserves_trade :
    let commands := [.registerSymbol [65], .registerSymbol [66], .newLimit 1 7 .sell 100 5 .gtc,
      .newLimit 1 9 .buy 100 3 .gtc]
    renumber commands = [.registerSymbol (renumberedName 0), .newLimit 0 0 .sell 100 5 .gtc,
        .newLimit 0 1 .buy 100 3 .gtc] ∧
      SameUpToNames .baseline ⟨10, 10000⟩ commands (renumber commands) ∧
      countTrades (renumber commands) 10 10000 = countTrades commands 10 10000 := by
  intro commands
  refine ⟨rfl, renumber_preserves .baseline ⟨10, 10000⟩ commands ?_⟩
  exact fun _ symbol _ => ownedSymbols_count_le (by decide) symbol

/- Beyond 2^32 registrations the last one owns symbol 0 again. -/
namespace Renumber

/-- So many registrations of different names. -/
def registrations (count : Nat) : List Command :=
  ((List.range count).map Decimal.print).map Command.registerSymbol

/-- And an order on the first symbol. -/
def wrapped (count : Nat) : List Command :=
  registrations count ++ [.newLimit 0 0 .buy 1 1 .gtc]

theorem registrations_field {ν : Type} {field : Command → Option ν}
    (silent : ∀ name, field (.registerSymbol name) = none) (count : Nat) :
    (registrations count).filterMap field = [] := by
  rw [filterMap_eq_nil_iff]
  intro command member
  obtain ⟨name, -, rfl⟩ := mem_map.mp member
  exact silent name

theorem registrations_names (count : Nat) :
    (registrations count).filterMap Command.name? = (List.range count).map Decimal.print := by
  rw [registrations, filterMap_map]
  exact filterMap_some

theorem wrapped_names (count : Nat) :
    (wrapped count).filterMap Command.name? = (List.range count).map Decimal.print := by
  rw [wrapped, filterMap_append, registrations_names]
  exact append_nil _

theorem wrapped_unique (count : Nat) : ((wrapped count).filterMap Command.name?).Nodup := by
  rw [wrapped_names]
  refine nodup_range.map fun i j same => ?_
  have value := (Decimal.numeral_print i).2.2
  rw [same, (Decimal.numeral_print j).2.2] at value
  exact value.symm

theorem wrapped_referenced (count : Nat) : collectReferencedSymbols (wrapped count) = [0] := by
  rw [collectReferencedSymbols, wrapped, filterMap_append,
    registrations_field fun _ => rfl]
  rfl

theorem wrapped_ids (count : Nat) : seenIds (wrapped count) = [0] := by
  rw [seenIds, wrapped, filterMap_append, registrations_field fun _ => rfl]
  rfl

/-- Symbol 0 is owned by the first registration and by the last. -/
theorem wrapped_kept (size : count = 2 ^ 32 + 1) : keptSymbols (wrapped count) = [0, 0] := by
  have once : ∀ count, count < 2 ^ 32 →
      (symbolsBelow (1 + count)).filter (· ∈ [(0 : SymbolId)]) = [0] := by
    intro count small
    have others : (((List.range count).map (1 + ·)).map UInt32.ofNat).filter
        (· ∈ [(0 : SymbolId)]) = [] := by
      rw [filter_eq_nil_iff]
      intro symbol member
      obtain ⟨number, listed, rfl⟩ := mem_map.mp member
      obtain ⟨i, below, rfl⟩ := mem_map.mp listed
      rw [mem_range] at below
      rw [decide_eq_true_iff, mem_singleton]
      intro zero
      have value := congrArg UInt32.toNat zero
      rw [UInt32.toNat_ofNat_of_lt' (by change 1 + i < 2 ^ 32; omega)] at value
      exact absurd value (by simp)
    rw [symbolsBelow_add, filter_append, others, append_nil]
    rfl
  obtain ⟨others, between, rfl⟩ : ∃ others, others + 1 = 2 ^ 32 ∧ count = 1 + others + 1 :=
    ⟨count - 2, by omega, by omega⟩
  have last : UInt32.ofNat (1 + others) = 0 := by
    rw [Nat.add_comm, between]
    decide
  rw [keptSymbols, ownedSymbols_zero, wrapped_names, length_map, length_range,
    wrapped_referenced, symbolsBelow_add, filter_append, once _ (by omega)]
  simp [last]

/-- The registrations of a stream come out first. -/
theorem relabel_registrations (symRemap : SymbolRemap) (ids : OrderId → OrderId)
    (oldSym : SymbolId) {front : List Command} (registering : ∀ command ∈ front,
      ∃ name, command = .registerSymbol name) (rest : List Command) :
    ∃ later, relabel symRemap ids oldSym (front ++ rest) =
      ((ownedSymbols oldSym front).filterMap symRemap.find?).map
        (Command.registerSymbol ∘ renumberedName) ++ relabel symRemap ids later rest := by
  induction front generalizing oldSym with
  | nil => exact ⟨oldSym, rfl⟩
  | cons command front ih =>
    obtain ⟨⟨name, rfl⟩, others⟩ := forall_mem_cons.mp registering
    obtain ⟨later, whole⟩ := ih (oldSym + 1) others
    refine ⟨later, ?_⟩
    rw [cons_append, relabel, whole, ownedSymbols, appendRenumberedRegistration_eq,
      filterMap_cons]
    cases symRemap.find? oldSym <;> rfl

/-- Both registrations of symbol 0 get the name of its last new id, which then stays unknown. -/
theorem wrapped_renumber (size : count = 2 ^ 32 + 1) :
    renumber (wrapped count) =
      [.registerSymbol (renumberedName 1), .registerSymbol (renumberedName 1),
        .newLimit 1 0 .buy 1 1 .gtc] := by
  have remap : symbolRemap (wrapped count) = assign [0, 0] 0 .empty := by
    rw [symbolRemap, wrapped_kept size]
  have owned : ownedSymbols 0 (registrations count) =
      ownedSymbols 0 (wrapped count) := by
    rw [ownedSymbols_zero, ownedSymbols_zero, wrapped_names, registrations_names]
  have registering : ∀ command ∈ registrations count,
      ∃ name, command = .registerSymbol name := by
    intro command member
    obtain ⟨name, -, rfl⟩ := mem_map.mp member
    exact ⟨name, rfl⟩
  obtain ⟨later, whole⟩ := relabel_registrations (symbolRemap (wrapped count))
    (idRank [0]) 0 registering [.newLimit 0 0 .buy 1 1 .gtc]
  rw [renumber_unique (wrapped_unique _), wrapped_ids]
  refine whole.trans ?_
  have fresh : remapSymbol (assign [0, 0] 0 .empty) 0 = 1 := by decide
  have rank : idRank [0] 0 = 0 := by decide
  rw [owned, ownedSymbols_kept, wrapped_kept size, remap]
  simp only [map_cons, map_nil, fresh, relabel, Command.rename, rank,
    Function.comp_apply, cons_append, nil_append]

/-- Registrations leave an empty book of the first symbol. -/
theorem registrations_book (storage : Storage) (config : RiskConfig) (count : Nat) :
    (Machine.run (Market.exchange storage config) .empty (registrations (count + 1))).1.books.find?
      0 = some .empty := by
  have kept : ∀ (names : List SymbolName) (market : Market), market.books.find? 0 = some .empty →
      (Machine.run (Market.exchange storage config) market
        (names.map Command.registerSymbol)).1.books.find? 0 = some .empty := by
    intro names
    induction names with
    | nil => exact fun _ known => known
    | cons name names ih =>
      intro market known
      rw [map_cons, Machine.run_cons, Market.exchange_registration]
      apply ih
      rcases market.registerSymbol_find? name 0 with same | ⟨unknown, _⟩
      · exact same.trans known
      · rw [known] at unknown
        cases unknown
  rw [registrations, range_succ_eq_map, map_cons, map_cons, Machine.run_cons,
    Market.exchange_registration]
  exact kept _ _ rfl

theorem answers_append {front rest : List Command} {results results' : List GatewayResult}
    (sameLength : front.length = results.length) :
    answers (front ++ rest) (results ++ results') =
      answers front results ++ answers rest results' := by
  rw [answers, zip_append sameLength, filter_append, map_append]
  rfl

theorem answers_registrations (count : Nat) (results : List GatewayResult) :
    answers (registrations count) results = [] := by
  rw [answers, map_eq_nil_iff, filter_eq_nil_iff]
  intro pair member
  obtain ⟨name, -, same⟩ := mem_map.mp (of_mem_zip member).1
  rw [← same]
  exact Bool.false_ne_true

/-- So the order is accepted. -/
theorem wrapped_answers (count : Nat) :
    ∃ result, answers (wrapped (count + 1)) (Machine.run (applyCommand ⟨1, 1⟩) (.new .baseline)
      (wrapped (count + 1))).2 = [result] ∧ result.accepted = true := by
  obtain ⟨-, ran⟩ := MatchingEngine.exchange_run .baseline ⟨1, 1⟩ (wrapped (count + 1))
  have book := registrations_book .baseline ⟨1, 1⟩ count
  have size : (registrations (count + 1)).length = (Machine.run (Market.exchange .baseline ⟨1, 1⟩)
      Market.empty (registrations (count + 1))).2.length := (Machine.run_length _ _).symm
  rw [wrapped, Machine.run_append] at ran
  rw [wrapped, ← (Prod.mk.inj ran).2, answers_append size, answers_registrations, nil_append]
  generalize (Machine.run (Market.exchange .baseline ⟨1, 1⟩) Market.empty
    (registrations (count + 1))).1 = market at book
  refine ⟨(market.exchange .baseline ⟨1, 1⟩ (.newLimit 0 0 .buy 1 1 .gtc)).2, rfl, ?_⟩
  have allowed : market.verdict ⟨1, 1⟩ (.newLimit 0 0 .buy 1 1 .gtc) = .none := by
    rw [Market.verdict, book]
    decide
  have room : market.rooms .baseline (.newLimit 0 0 .buy 1 1 .gtc) = true := by
    rw [Market.rooms, Command.target]
    simp only [book]
    rfl
  rw [Market.exchange, allowed, room]
  rfl

/-- A name registered twice makes one symbol. -/
theorem registered_twice (name : SymbolName) :
    let commands := [.registerSymbol name, .registerSymbol name, .newLimit 1 0 .buy 1 1 .gtc]
    answers commands (Machine.run (applyCommand ⟨1, 1⟩) (.new .baseline) commands).2 =
      [.reject .unknownSymbol] := by
  obtain ⟨-, ran⟩ := MatchingEngine.exchange_run .baseline ⟨1, 1⟩
    [.registerSymbol name, .registerSymbol name, .newLimit 1 0 .buy 1 1 .gtc]
  have first : Market.empty.registerSymbol name =
      ⟨⟨OrderedMap.empty.insert name 0, 1⟩, OrderedMap.empty.insert 0 .empty, 0⟩ := rfl
  have again : (Market.empty.registerSymbol name).registerSymbol name =
      Market.empty.registerSymbol name := by
    rw [first, Market.registerSymbol, SymbolRegistry.intern, OrderedMap.find?_insert, if_pos rfl]
    rfl
  have refused : (Market.empty.registerSymbol name).exchange .baseline ⟨1, 1⟩
      (.newLimit 1 0 .buy 1 1 .gtc) =
        (Market.empty.registerSymbol name, .reject .unknownSymbol) := by
    rw [first]
    rfl
  rw [Machine.run_cons, Machine.run_cons, Machine.run_cons, Market.exchange_registration,
    Market.exchange_registration, again, refused] at ran
  intro commands
  rw [← congrArg Prod.snd ran]
  rfl

theorem wrapped_differs (size : count = 2 ^ 32 + 1) :
    ¬ SameUpToNames .baseline ⟨1, 1⟩ (wrapped count) (renumber (wrapped count)) := by
  rintro ⟨symbols, ids, shown, -, -, -, -, same, -⟩
  obtain ⟨result, answered, accepted⟩ := wrapped_answers (count - 1)
  have whole : count - 1 + 1 = count := by omega
  rw [whole] at answered
  rw [answered, wrapped_renumber size] at same
  rw [registered_twice, map_singleton, singleton_inj] at same
  have verdict := congrArg GatewayResult.accepted same
  rw [GatewayResult.rename, accepted] at verdict
  cases verdict

end Renumber

/-- After 2^32 + 1 registrations an order on symbol 0 is accepted; renumbered, it is an order on
a symbol nobody registered. -/
theorem renumber_wraps :
    ¬ SameUpToNames .baseline ⟨1, 1⟩ (Renumber.wrapped (2 ^ 32 + 1))
      (renumber (Renumber.wrapped (2 ^ 32 + 1))) :=
  Renumber.wrapped_differs rfl

end Qsl
