import Qsl.Command
import Qsl.Decimal
import Qsl.FirstSeen

namespace Qsl

open List OrderedMap

variable {id : OrderId}

namespace Command

/-- The name that a registration registers. -/
def name? : Command → Option SymbolName
  | .registerSymbol name => some name
  | _ => none

def symbol? : Command → Option SymbolId
  | .registerSymbol _ => none
  | .newLimit symbol .. => some symbol
  | .newMarket symbol .. => some symbol
  | .cancel symbol _ => some symbol
  | .modify symbol .. => some symbol

def id? : Command → Option OrderId
  | .registerSymbol _ => none
  | .newLimit _ id .. => some id
  | .newMarket _ id .. => some id
  | .cancel _ id => some id
  | .modify _ id .. => some id

def quantity? : Command → Option Quantity
  | .newLimit _ _ _ _ quantity _ => some quantity
  | .newMarket _ _ _ quantity => some quantity
  | .modify _ _ _ quantity => some quantity
  | _ => none

def price? : Command → Option Price
  | .newLimit _ _ _ price _ _ => some price
  | .modify _ _ price _ => some price
  | _ => none

def isRegistration (command : Command) : Bool := command.name?.isSome

/-- The command under other symbols and order ids. -/
def rename (symbols : SymbolId → SymbolId) (ids : OrderId → OrderId) : Command → Command
  | .registerSymbol name => .registerSymbol name
  | .newLimit symbol id side price quantity tif =>
    .newLimit (symbols symbol) (ids id) side price quantity tif
  | .newMarket symbol id side quantity => .newMarket (symbols symbol) (ids id) side quantity
  | .cancel symbol id => .cancel (symbols symbol) (ids id)
  | .modify symbol id price quantity => .modify (symbols symbol) (ids id) price quantity

end Command

/-- The set of names seen so far is a list here; only membership counts. -/
def hasDuplicateSymbolRegistrationNames (names : List SymbolName) : List Command → Bool
  | [] => false
  | .registerSymbol name :: rest =>
    if name ∈ names then true else hasDuplicateSymbolRegistrationNames (name :: names) rest
  | _ :: rest => hasDuplicateSymbolRegistrationNames names rest

/-- A set in the source, of which only membership counts. -/
def collectReferencedSymbols (commands : List Command) : List SymbolId :=
  commands.filterMap Command.symbol?

abbrev SymbolRemap := OrderedMap SymbolId SymbolId (· < ·)

/-- The loop over the commands: the i-th registration owns symbol i, and the referenced ones get
the next new id. -/
def buildSymbolRemap (referenced : List SymbolId) :
    List Command → SymbolId → SymbolId → SymbolRemap → SymbolRemap
  | [], _, _, remap => remap
  | .registerSymbol _ :: rest, oldSym, newSym, remap =>
    if oldSym ∈ referenced then
      buildSymbolRemap referenced rest (oldSym + 1) (newSym + 1) (remap.insert oldSym newSym)
    else buildSymbolRemap referenced rest (oldSym + 1) newSym remap
  | _ :: rest, oldSym, newSym, remap => buildSymbolRemap referenced rest oldSym newSym remap

/-- A reference to a symbol that is not registered keeps its id. -/
def remapSymbol (remap : SymbolRemap) (symbol : SymbolId) : SymbolId :=
  (remap.find? symbol).getD symbol

structure OrderIdRemapper where
  remap : OrderedMap OrderId OrderId (· < ·)
  nextId : OrderId

namespace OrderIdRemapper

def new : OrderIdRemapper := ⟨.empty, 0⟩

def map (remapper : OrderIdRemapper) (id : OrderId) : OrderIdRemapper × OrderId :=
  match remapper.remap.find? id with
  | some known => (remapper, known)
  | none => (⟨remapper.remap.insert id remapper.nextId, remapper.nextId + 1⟩, remapper.nextId)

end OrderIdRemapper

/-- Not called for a registration. -/
def remapNonRegisterCommand (symRemap : SymbolRemap) (idRemap : OrderIdRemapper) :
    Command → OrderIdRemapper × Command
  | .registerSymbol name => (idRemap, .registerSymbol name)
  | .newLimit symbol id side price quantity tif =>
    let (next, mapped) := idRemap.map id
    (next, .newLimit (remapSymbol symRemap symbol) mapped side price quantity tif)
  | .newMarket symbol id side quantity =>
    let (next, mapped) := idRemap.map id
    (next, .newMarket (remapSymbol symRemap symbol) mapped side quantity)
  | .cancel symbol id =>
    let (next, mapped) := idRemap.map id
    (next, .cancel (remapSymbol symRemap symbol) mapped)
  | .modify symbol id price quantity =>
    let (next, mapped) := idRemap.map id
    (next, .modify (remapSymbol symRemap symbol) mapped price quantity)

/-- The name of a renumbered symbol, an `S` and its id. -/
def renumberedName (symbol : SymbolId) : SymbolName := 83 :: Decimal.print symbol.toNat

/-- What the registration that owns `oldSym` becomes: nothing, if the symbol is not referenced. -/
def appendRenumberedRegistration (symRemap : SymbolRemap) (oldSym : SymbolId) : List Command :=
  match symRemap.find? oldSym with
  | some symbol => [.registerSymbol (renumberedName symbol)]
  | none => []

/-- The second loop over the commands. -/
def renumberFrom (symRemap : SymbolRemap) :
    List Command → SymbolId → OrderIdRemapper → List Command
  | [], _, _ => []
  | .registerSymbol _ :: rest, oldSym, idRemap =>
    appendRenumberedRegistration symRemap oldSym ++
      renumberFrom symRemap rest (oldSym + 1) idRemap
  | command :: rest, oldSym, idRemap =>
    let (next, renamed) := remapNonRegisterCommand symRemap idRemap command
    renamed :: renumberFrom symRemap rest oldSym next

def renumber (commands : List Command) : List Command :=
  if hasDuplicateSymbolRegistrationNames [] commands then commands
  else
    let symRemap := buildSymbolRemap (collectReferencedSymbols commands) commands 0 0 .empty
    renumberFrom symRemap commands 0 .new

/- What the two loops compute, without their accumulators. -/

/-- The ids that the registrations own, from `oldSym` on. -/
def ownedSymbols : SymbolId → List Command → List SymbolId
  | _, [] => []
  | oldSym, .registerSymbol _ :: rest => oldSym :: ownedSymbols (oldSym + 1) rest
  | oldSym, _ :: rest => ownedSymbols oldSym rest

/-- New ids for the symbols, one after another. -/
def assign : List SymbolId → SymbolId → SymbolRemap → SymbolRemap
  | [], _, remap => remap
  | symbol :: symbols, newSym, remap => assign symbols (newSym + 1) (remap.insert symbol newSym)

/-- The owned symbols that some command refers to. -/
def keptSymbols (commands : List Command) : List SymbolId :=
  (ownedSymbols 0 commands).filter (· ∈ collectReferencedSymbols commands)

/-- The place of an order id among those that appear. -/
def idRank (ids : List OrderId) (id : OrderId) : OrderId := UInt64.ofNat (ids.idxOf id)

/-- The order ids in the order of their first appearance. -/
def seenIds (commands : List Command) : List OrderId :=
  FirstSeen.after [] (commands.filterMap Command.id?)

/-- The second loop with the final renaming of order ids. -/
def relabel (symRemap : SymbolRemap) (ids : OrderId → OrderId) :
    SymbolId → List Command → List Command
  | _, [] => []
  | oldSym, .registerSymbol _ :: rest =>
    appendRenumberedRegistration symRemap oldSym ++ relabel symRemap ids (oldSym + 1) rest
  | oldSym, command :: rest =>
    command.rename (remapSymbol symRemap) ids :: relabel symRemap ids oldSym rest

section Commands

/-- The loops tell registrations from the other commands only. -/
theorem Command.registration_rec {motive : List Command → Prop} (nil : motive [])
    (registration : ∀ name rest, motive rest → motive (.registerSymbol name :: rest))
    (other : ∀ command rest symbol id, command.name? = none → command.symbol? = some symbol →
      command.id? = some id → motive rest → motive (command :: rest)) (commands : List Command) :
    motive commands := by
  induction commands with
  | nil => exact nil
  | cons command rest ih =>
    cases command with
    | registerSymbol name => exact registration name rest ih
    | _ => exact other _ _ _ _ rfl rfl rfl ih

variable {command : Command} (other : command.name? = none)

include other

theorem hasDuplicate_other (names : List SymbolName) (rest : List Command) :
    hasDuplicateSymbolRegistrationNames names (command :: rest) =
      hasDuplicateSymbolRegistrationNames names rest := by
  cases command <;> first | rfl | cases other

theorem buildSymbolRemap_other (referenced : List SymbolId) (rest : List Command)
    (oldSym newSym : SymbolId) (remap : SymbolRemap) :
    buildSymbolRemap referenced (command :: rest) oldSym newSym remap =
      buildSymbolRemap referenced rest oldSym newSym remap := by
  cases command <;> first | rfl | cases other

theorem ownedSymbols_other (oldSym : SymbolId) (rest : List Command) :
    ownedSymbols oldSym (command :: rest) = ownedSymbols oldSym rest := by
  cases command <;> first | rfl | cases other

theorem relabel_other (symRemap : SymbolRemap) (ids : OrderId → OrderId) (oldSym : SymbolId)
    (rest : List Command) :
    relabel symRemap ids oldSym (command :: rest) =
      command.rename (remapSymbol symRemap) ids :: relabel symRemap ids oldSym rest := by
  cases command <;> first | rfl | cases other

theorem Command.rename_name? (symbols : SymbolId → SymbolId) (ids : OrderId → OrderId) :
    (command.rename symbols ids).name? = none := by
  cases command <;> first | rfl | cases other

end Commands

/-- A renaming touches no names but those of the command. -/
theorem Command.rename_congr {command : Command} {symbol : SymbolId}
    (named : command.symbol? = some symbol) (numbered : command.id? = some id)
    {symbols symbols' : SymbolId → SymbolId} {ids ids' : OrderId → OrderId}
    (same : symbols symbol = symbols' symbol) (same' : ids id = ids' id) :
    command.rename symbols ids = command.rename symbols' ids' := by
  cases command <;> cases named <;> cases numbered <;> rw [rename, rename, same, same']

theorem renumberFrom_other {command : Command} (named : command.id? = some id)
    (symRemap : SymbolRemap) (oldSym : SymbolId) (idRemap : OrderIdRemapper) (rest : List Command) :
    renumberFrom symRemap (command :: rest) oldSym idRemap =
      command.rename (remapSymbol symRemap) (fun _ => (idRemap.map id).2) ::
        renumberFrom symRemap rest oldSym (idRemap.map id).1 := by
  cases command <;> cases named <;> rfl

theorem hasDuplicate_iff (names : List SymbolName) (commands : List Command) :
    hasDuplicateSymbolRegistrationNames names commands = false ↔
      (commands.filterMap Command.name?).Nodup ∧
        ∀ name ∈ commands.filterMap Command.name?, name ∉ names := by
  induction commands using Command.registration_rec generalizing names with
  | nil => simp [hasDuplicateSymbolRegistrationNames]
  | registration name rest ih =>
    have first : (Command.registerSymbol name :: rest).filterMap Command.name? =
        name :: rest.filterMap Command.name? := rfl
    rw [first, nodup_cons, forall_mem_cons, hasDuplicateSymbolRegistrationNames]
    split
    · rename_i known
      simp [known]
    · rename_i fresh
      rw [ih]
      simp only [mem_cons, not_or]
      constructor
      · rintro ⟨unique, apart⟩
        refine ⟨⟨?_, unique⟩, fresh, fun other member => (apart other member).2⟩
        intro member
        exact (apart name member).1 rfl
      · rintro ⟨⟨first, unique⟩, -, apart⟩
        refine ⟨unique, fun other member => ⟨?_, apart other member⟩⟩
        rintro rfl
        exact first member
  | other command rest _ _ other _ _ ih =>
    rw [filterMap_cons_none other, hasDuplicate_other other, ih]

/-- The first loop gives new ids to the owned symbols that are referenced. -/
theorem buildSymbolRemap_eq (referenced : List SymbolId) (commands : List Command)
    (oldSym newSym : SymbolId) (remap : SymbolRemap) :
    buildSymbolRemap referenced commands oldSym newSym remap =
      assign ((ownedSymbols oldSym commands).filter (· ∈ referenced)) newSym remap := by
  induction commands using Command.registration_rec generalizing oldSym newSym remap with
  | nil => rfl
  | registration name rest ih =>
    rw [buildSymbolRemap, ownedSymbols, filter_cons]
    split
    · rename_i member
      rw [ih, if_pos (decide_eq_true member), assign]
    · rename_i member
      rw [ih, if_neg (by simpa using member)]
  | other command rest _ _ other _ _ ih =>
    rw [buildSymbolRemap_other other, ownedSymbols_other other, ih]

namespace OrderIdRemapper

/-- The remapper gives each id its place among those seen. -/
structure Tracks (remapper : OrderIdRemapper) (seen : List OrderId) : Prop where
  unique : seen.Nodup
  known : ∀ id ∈ seen, remapper.remap.find? id = some (idRank seen id)
  fresh : ∀ id ∉ seen, remapper.remap.find? id = none
  next : remapper.nextId = UInt64.ofNat seen.length

theorem tracks_new : new.Tracks [] where
  unique := nodup_nil
  known := by simp
  fresh := fun _ _ => rfl
  next := rfl

variable {remapper : OrderIdRemapper} {seen : List OrderId}

theorem Tracks.map (tracks : remapper.Tracks seen) (id : OrderId) :
    (remapper.map id).1.Tracks (FirstSeen.note seen id) ∧
      (remapper.map id).2 = idRank (FirstSeen.note seen id) id := by
  unfold OrderIdRemapper.map FirstSeen.note
  by_cases old : id ∈ seen
  · rw [tracks.known id old, if_pos old]
    exact ⟨tracks, rfl⟩
  · have place : idRank (seen ++ [id]) id = remapper.nextId := by
      rw [idRank, idxOf_append_of_notMem old, idxOf_cons_self, tracks.next, Nat.add_zero]
    rw [tracks.fresh id old, if_neg old]
    refine ⟨⟨?_, ?_, ?_, ?_⟩, place.symm⟩
    · have noted := FirstSeen.note_nodup tracks.unique id
      rwa [FirstSeen.note, if_neg old] at noted
    · intro other member
      rw [find?_insert]
      split
      · rename_i same
        rw [same, place]
      · rename_i differ
        have before : other ∈ seen := by simpa [differ] using member
        rw [tracks.known other before, idRank, idRank, idxOf_append_of_mem before]
    · intro other missing
      rw [mem_append, mem_singleton, not_or] at missing
      rw [find?_insert, if_neg missing.2, tracks.fresh other missing.1]
    · rw [length_append, length_singleton, tracks.next]
      exact (UInt64.ofNat_add _ _).symm

end OrderIdRemapper

/-- The second loop renames every order id to its place among all of them. -/
theorem renumberFrom_eq {symRemap : SymbolRemap} {commands : List Command} {oldSym : SymbolId}
    {idRemap : OrderIdRemapper} {seen : List OrderId} (tracks : idRemap.Tracks seen) :
    renumberFrom symRemap commands oldSym idRemap =
      relabel symRemap (idRank (FirstSeen.after seen (commands.filterMap Command.id?))) oldSym
        commands := by
  induction commands using Command.registration_rec generalizing oldSym idRemap seen with
  | nil => rfl
  | registration name rest ih =>
    rw [renumberFrom, relabel, ih tracks]
    rfl
  | other command rest _ id other asked named ih =>
    obtain ⟨later, mapped⟩ := tracks.map id
    have member : id ∈ FirstSeen.note seen id := FirstSeen.mem_note.mpr (.inr rfl)
    have rank : idRank (FirstSeen.after (FirstSeen.note seen id)
        (rest.filterMap Command.id?)) id = (idRemap.map id).2 := by
      rw [mapped, idRank, FirstSeen.idxOf_after _ member, idRank]
    rw [renumberFrom_other named, ih later, relabel_other other,
      filterMap_cons_some named, FirstSeen.after_cons]
    congr 1
    exact Command.rename_congr asked named rfl rank.symm

section Assign

variable {symbols : List SymbolId} {symbol newSym : SymbolId} {remap : SymbolRemap}

theorem assign_missing (missing : symbol ∉ symbols) :
    (assign symbols newSym remap).find? symbol = remap.find? symbol := by
  induction symbols generalizing newSym remap with
  | nil => rfl
  | cons first symbols ih =>
    simp only [mem_cons, not_or] at missing
    obtain ⟨differ, later⟩ := missing
    rw [assign, ih later, find?_insert, if_neg differ]

theorem assign_isSome (member : symbol ∈ symbols) :
    ((assign symbols newSym remap).find? symbol).isSome = true := by
  induction symbols generalizing newSym remap with
  | nil => cases member
  | cons first symbols ih =>
    by_cases later : symbol ∈ symbols
    · exact ih later
    · have same : symbol = first := by simpa [later] using member
      rw [assign, assign_missing later, find?_insert, if_pos same]
      rfl

/-- Without duplicates the new ids are the places in the list. -/
theorem assign_find? (unique : symbols.Nodup) (member : symbol ∈ symbols) :
    (assign symbols newSym remap).find? symbol =
      some (newSym + UInt32.ofNat (symbols.idxOf symbol)) := by
  induction symbols generalizing newSym remap with
  | nil => cases member
  | cons first symbols ih =>
    obtain ⟨apart, unique⟩ := nodup_cons.mp unique
    by_cases same : symbol = first
    · rw [assign, assign_missing (same ▸ apart), find?_insert, if_pos same, same,
        idxOf_cons_self]
      simp
    · have later : symbol ∈ symbols := by simpa [same] using member
      rw [assign, ih unique later, idxOf_cons_ne _ (Ne.symm same), UInt32.add_assoc,
        Nat.succ_eq_add_one, UInt32.ofNat_add, UInt32.add_comm 1]
      rfl

end Assign

/-- The remap of `renumber`. -/
def symbolRemap (commands : List Command) : SymbolRemap := assign (keptSymbols commands) 0 .empty

theorem renumber_unique {commands : List Command}
    (unique : (commands.filterMap Command.name?).Nodup) :
    renumber commands = relabel (symbolRemap commands) (idRank (seenIds commands)) 0 commands := by
  have distinct : hasDuplicateSymbolRegistrationNames [] commands = false :=
    (hasDuplicate_iff [] commands).mpr ⟨unique, by simp⟩
  have remap : buildSymbolRemap (collectReferencedSymbols commands) commands 0 0 .empty =
      symbolRemap commands := buildSymbolRemap_eq _ _ _ _ _
  rw [renumber, distinct, if_neg Bool.false_ne_true, remap]
  exact renumberFrom_eq OrderIdRemapper.tracks_new

theorem renumber_repeated {commands : List Command}
    (repeated : ¬ (commands.filterMap Command.name?).Nodup) : renumber commands = commands := by
  have duplicate : hasDuplicateSymbolRegistrationNames [] commands = true := by
    cases found : hasDuplicateSymbolRegistrationNames [] commands with
    | true => rfl
    | false => exact absurd ((hasDuplicate_iff [] commands).mp found).1 repeated
  rw [renumber, if_pos duplicate]

section Relabel

variable (symRemap : SymbolRemap) (ids : OrderId → OrderId) (oldSym : SymbolId)
  (commands : List Command)

theorem appendRenumberedRegistration_eq :
    appendRenumberedRegistration symRemap oldSym =
      ((symRemap.find? oldSym).map (Command.registerSymbol ∘ renumberedName)).toList := by
  unfold appendRenumberedRegistration
  cases symRemap.find? oldSym <;> rfl

/-- A field that registrations do not have is renamed with its command. -/
theorem relabel_field {ν μ : Type} {field : Command → Option ν} {field' : Command → Option μ}
    {change : ν → μ} (silent : ∀ name, field (.registerSymbol name) = none)
    (silent' : ∀ name, field' (.registerSymbol name) = none)
    (renamed : ∀ command, command.name? = none →
      field' (command.rename (remapSymbol symRemap) ids) = (field command).map change) :
    (relabel symRemap ids oldSym commands).filterMap field' =
      (commands.filterMap field).map change := by
  induction commands using Command.registration_rec generalizing oldSym with
  | nil => rfl
  | registration name rest ih =>
    have dropped : (appendRenumberedRegistration symRemap oldSym).filterMap field' = [] := by
      rw [appendRenumberedRegistration_eq]
      cases symRemap.find? oldSym <;> simp [silent']
    rw [relabel, filterMap_append, dropped, nil_append, ih,
      filterMap_cons_none (silent name)]
  | other command rest _ _ other _ _ ih =>
    rw [relabel_other other, filterMap_cons, renamed command other, ih,
      filterMap_cons]
    cases field command <;> rfl

theorem relabel_symbols :
    collectReferencedSymbols (relabel symRemap ids oldSym commands) =
      (collectReferencedSymbols commands).map (remapSymbol symRemap) := by
  apply relabel_field _ _ _ _ (fun _ => rfl) (fun _ => rfl)
  intro command _
  cases command <;> rfl

theorem relabel_ids :
    (relabel symRemap ids oldSym commands).filterMap Command.id? =
      (commands.filterMap Command.id?).map ids := by
  apply relabel_field _ _ _ _ (fun _ => rfl) (fun _ => rfl)
  intro command _
  cases command <;> rfl

theorem relabel_names :
    (relabel symRemap ids oldSym commands).filterMap Command.name? =
      ((ownedSymbols oldSym commands).filterMap symRemap.find?).map renumberedName := by
  induction commands using Command.registration_rec generalizing oldSym with
  | nil => rfl
  | registration name rest ih =>
    rw [relabel, filterMap_append, ih, ownedSymbols, appendRenumberedRegistration_eq,
      filterMap_cons]
    cases symRemap.find? oldSym <;> rfl
  | other command rest _ _ other _ _ ih =>
    rw [relabel_other other, filterMap_cons_none (Command.rename_name? other _ _), ih,
      ownedSymbols_other other]

theorem relabel_length : (relabel symRemap ids oldSym commands).length ≤ commands.length := by
  induction commands using Command.registration_rec generalizing oldSym with
  | nil => exact Nat.le_refl 0
  | registration name rest ih =>
    have atMost : (appendRenumberedRegistration symRemap oldSym).length ≤ 1 := by
      rw [appendRenumberedRegistration_eq]
      cases symRemap.find? oldSym <;> simp
    have later := ih (oldSym + 1)
    rw [relabel, length_append, length_cons]
    omega
  | other command rest _ _ other _ _ ih =>
    have later := ih oldSym
    rw [relabel_other other, length_cons, length_cons]
    omega

end Relabel

theorem renumber_length (commands : List Command) :
    (renumber commands).length ≤ commands.length := by
  by_cases unique : (commands.filterMap Command.name?).Nodup
  · rw [renumber_unique unique]
    exact relabel_length _ _ _ _
  · rw [renumber_repeated unique]

/-- A field that no renaming touches stays. -/
theorem renumber_field {ν : Type} {field : Command → Option ν}
    (silent : ∀ name, field (.registerSymbol name) = none)
    (kept : ∀ command symbols ids, field (command.rename symbols ids) = field command)
    (commands : List Command) : (renumber commands).filterMap field = commands.filterMap field := by
  by_cases unique : (commands.filterMap Command.name?).Nodup
  · rw [renumber_unique unique, ← map_id (commands.filterMap field)]
    apply relabel_field _ _ _ _ silent silent
    intro command _
    rw [kept, Option.map_id, id]
  · rw [renumber_repeated unique]

theorem renumber_quantities (commands : List Command) :
    (renumber commands).filterMap Command.quantity? = commands.filterMap Command.quantity? :=
  renumber_field (fun _ => rfl) (fun command _ _ => by cases command <;> rfl) commands

theorem renumber_prices (commands : List Command) :
    (renumber commands).filterMap Command.price? = commands.filterMap Command.price? :=
  renumber_field (fun _ => rfl) (fun command _ _ => by cases command <;> rfl) commands

/- Renumbering twice. -/

theorem renumberedName_injective : Function.Injective renumberedName := by
  intro symbol other same
  have printed : Decimal.print symbol.toNat = Decimal.print other.toNat := (List.cons.inj same).2
  have value := (Decimal.numeral_print symbol.toNat).2.2
  rw [printed, (Decimal.numeral_print other.toNat).2.2] at value
  exact UInt32.toNat_inj.mp value.symm

theorem ownedSymbols_eq (oldSym : SymbolId) (commands : List Command) :
    ownedSymbols oldSym commands =
      (List.range (commands.filterMap Command.name?).length).map
        (fun i => oldSym + UInt32.ofNat i) := by
  induction commands using Command.registration_rec generalizing oldSym with
  | nil => rfl
  | registration name rest ih =>
    have first : (Command.registerSymbol name :: rest).filterMap Command.name? =
        name :: rest.filterMap Command.name? := rfl
    rw [ownedSymbols, ih, first, length_cons, range_succ_eq_map, map_cons,
      map_map]
    congr 1
    · exact (UInt32.add_zero oldSym).symm
    · apply map_congr_left
      intro i _
      rw [Function.comp_apply, Nat.succ_eq_add_one, UInt32.ofNat_add, UInt32.add_assoc,
        UInt32.add_comm 1]
      rfl
  | other command rest _ _ other _ _ ih =>
    rw [ownedSymbols_other other, ih, filterMap_cons_none other]

/-- The first `count` symbols. -/
def symbolsBelow (count : Nat) : List SymbolId := (List.range count).map UInt32.ofNat

theorem ownedSymbols_zero (commands : List Command) :
    ownedSymbols 0 commands = symbolsBelow (commands.filterMap Command.name?).length := by
  rw [ownedSymbols_eq, symbolsBelow]
  apply map_congr_left
  intro i _
  exact UInt32.zero_add _

section Kept

variable {commands : List Command}

theorem symbolRemap_missing {symbol : SymbolId} (missing : symbol ∉ keptSymbols commands) :
    (symbolRemap commands).find? symbol = none :=
  assign_missing missing

theorem symbolRemap_kept {symbol : SymbolId} (kept : symbol ∈ keptSymbols commands) :
    (symbolRemap commands).find? symbol = some (remapSymbol (symbolRemap commands) symbol) := by
  have known : ((symbolRemap commands).find? symbol).isSome = true := assign_isSome kept
  obtain ⟨value, found⟩ := Option.isSome_iff_exists.mp known
  rw [remapSymbol, found, Option.getD_some]

/-- The registrations that stay are those of the kept symbols. -/
theorem ownedSymbols_kept :
    (ownedSymbols 0 commands).filterMap (symbolRemap commands).find? =
      (keptSymbols commands).map (remapSymbol (symbolRemap commands)) := by
  have decided : ∀ symbol ∈ ownedSymbols 0 commands, (symbolRemap commands).find? symbol =
      if symbol ∈ collectReferencedSymbols commands then
        some (remapSymbol (symbolRemap commands) symbol)
      else none := by
    intro symbol owned
    split
    · rename_i referenced
      exact symbolRemap_kept (mem_filter.mpr ⟨owned, decide_eq_true referenced⟩)
    · rename_i unreferenced
      apply symbolRemap_missing
      intro kept
      exact unreferenced (of_decide_eq_true (mem_filter.mp kept).2)
  rw [filterMap_congr decided, keptSymbols, ← filterMap_eq_map, filterMap_filter]
  apply filterMap_congr
  intro symbol _
  simp

variable (unique : (keptSymbols commands).Nodup)

include unique

theorem keptSymbols_length : (keptSymbols commands).length ≤ 2 ^ 32 :=
  FirstSeen.length_le_of_nodup (fun _ _ => UInt32.toNat_inj.mp) UInt32.toNat_lt unique

theorem remapSymbol_kept {symbol : SymbolId} (kept : symbol ∈ keptSymbols commands) :
    remapSymbol (symbolRemap commands) symbol =
      UInt32.ofNat ((keptSymbols commands).idxOf symbol) := by
  rw [remapSymbol, symbolRemap, assign_find? unique kept, Option.getD_some, UInt32.zero_add]

theorem remapSymbol_injective {symbol other : SymbolId} (kept : symbol ∈ keptSymbols commands)
    (kept' : other ∈ keptSymbols commands)
    (same : remapSymbol (symbolRemap commands) symbol = remapSymbol (symbolRemap commands) other) :
    symbol = other := by
  have small := keptSymbols_length unique
  have below : ∀ {symbol}, symbol ∈ keptSymbols commands →
      (keptSymbols commands).idxOf symbol < 2 ^ 32 := fun kept =>
    Nat.lt_of_lt_of_le (idxOf_lt_length_iff.mpr kept) small
  rw [remapSymbol_kept unique kept, remapSymbol_kept unique kept'] at same
  have place := congrArg UInt32.toNat same
  rw [UInt32.toNat_ofNat_of_lt' (below kept), UInt32.toNat_ofNat_of_lt' (below kept')] at place
  exact (idxOf_inj kept).mp place

theorem keptSymbols_map :
    (keptSymbols commands).map (remapSymbol (symbolRemap commands)) =
      symbolsBelow (keptSymbols commands).length := by
  apply ext_getElem
  · simp [symbolsBelow]
  · intro i bound _
    rw [length_map] at bound
    rw [getElem_map, remapSymbol_kept unique (getElem_mem bound),
      unique.idxOf_getElem i bound]
    simp [symbolsBelow]

end Kept

theorem seenIds_nodup (commands : List Command) : (seenIds commands).Nodup :=
  FirstSeen.after_nodup nodup_nil _

theorem seenIds_length (commands : List Command) : (seenIds commands).length ≤ 2 ^ 64 :=
  FirstSeen.length_le_of_nodup (fun _ _ => UInt64.toNat_inj.mp) UInt64.toNat_lt
    (seenIds_nodup commands)

theorem mem_seenIds {commands : List Command} :
    id ∈ seenIds commands ↔ id ∈ commands.filterMap Command.id? := by
  rw [seenIds, FirstSeen.mem_after]
  simp

theorem idRank_toNat {commands : List Command} (seen : id ∈ seenIds commands) :
    (idRank (seenIds commands) id).toNat = (seenIds commands).idxOf id := by
  have place := idxOf_lt_length_iff.mpr seen
  have small := seenIds_length commands
  exact UInt64.toNat_ofNat_of_lt' (Nat.lt_of_lt_of_le place small)

theorem idRank_injective {commands : List Command} {id other : OrderId}
    (seen : id ∈ seenIds commands) (seen' : other ∈ seenIds commands)
    (same : idRank (seenIds commands) id = idRank (seenIds commands) other) : id = other := by
  have place := congrArg UInt64.toNat same
  rw [idRank_toNat seen, idRank_toNat seen'] at place
  exact (idxOf_inj seen).mp place

/-- A stream whose symbols, order ids and names are in place already. -/
theorem relabel_self {symRemap : SymbolRemap} {ids : OrderId → OrderId} {oldSym : SymbolId}
    {commands : List Command}
    (named : commands.filterMap Command.name? = (ownedSymbols oldSym commands).map renumberedName)
    (owned : ∀ symbol ∈ ownedSymbols oldSym commands, symRemap.find? symbol = some symbol)
    (symbols : ∀ symbol, remapSymbol symRemap symbol = symbol)
    (ranked : ∀ id ∈ commands.filterMap Command.id?, ids id = id) :
    relabel symRemap ids oldSym commands = commands := by
  induction commands using Command.registration_rec generalizing oldSym with
  | nil => rfl
  | registration name rest ih =>
    rw [ownedSymbols] at named owned
    obtain ⟨first, later⟩ := List.cons.inj named
    obtain ⟨here, there⟩ := forall_mem_cons.mp owned
    rw [relabel, ih later there ranked, appendRenumberedRegistration_eq, here, first]
    rfl
  | other command rest _ id other _ numbered ih =>
    rw [filterMap_cons_some numbered] at ranked
    obtain ⟨here, there⟩ := forall_mem_cons.mp ranked
    rw [ownedSymbols_other other] at named owned
    rw [filterMap_cons_none other] at named
    have same : command.rename (remapSymbol symRemap) ids = command := by
      cases command <;> cases numbered <;> simp [Command.rename, symbols, here]
    rw [relabel_other other, ih named owned there, same]

section Again

variable {commands : List Command}

/-- The ids of a renumbered stream are their own ranks. -/
theorem renumbered_ids (symRemap : SymbolRemap) (oldSym : SymbolId) (commands : List Command) :
    ∀ id ∈ (relabel symRemap (idRank (seenIds commands)) oldSym commands).filterMap Command.id?,
      idRank (seenIds (relabel symRemap (idRank (seenIds commands)) oldSym commands)) id = id := by
  have apart : ∀ id ∈ commands.filterMap Command.id?, ∀ other ∈ commands.filterMap Command.id?,
      idRank (seenIds commands) id = idRank (seenIds commands) other → id = other :=
    fun id seen other seen' => idRank_injective (mem_seenIds.mpr seen) (mem_seenIds.mpr seen')
  have order : seenIds (relabel symRemap (idRank (seenIds commands)) oldSym commands) =
      (seenIds commands).map (idRank (seenIds commands)) := by
    rw [seenIds, relabel_ids]
    exact @FirstSeen.after_map _ _ _ _ [] _ _ apart
  rw [relabel_ids, order]
  intro id member
  obtain ⟨old, listed, rfl⟩ := mem_map.mp member
  have seen := mem_seenIds.mpr listed
  rw [idRank, FirstSeen.idxOf_map (fun id seen other seen' => idRank_injective seen seen')
    (seenIds_nodup commands) seen, idRank]

variable (unique : (keptSymbols commands).Nodup) (ids : OrderId → OrderId)

include unique

theorem renumbered_owned :
    ownedSymbols 0 (relabel (symbolRemap commands) ids 0 commands) =
      (keptSymbols commands).map (remapSymbol (symbolRemap commands)) := by
  rw [ownedSymbols_zero, relabel_names, ownedSymbols_kept, length_map, length_map,
    keptSymbols_map unique]

/-- The registrations of a renumbered stream all stay. -/
theorem renumbered_kept :
    keptSymbols (relabel (symbolRemap commands) ids 0 commands) =
      (keptSymbols commands).map (remapSymbol (symbolRemap commands)) := by
  rw [keptSymbols, renumbered_owned unique, filter_eq_self, relabel_symbols]
  intro symbol member
  obtain ⟨old, kept, rfl⟩ := mem_map.mp member
  exact decide_eq_true (mem_map_of_mem (of_decide_eq_true (mem_filter.mp kept).2))

theorem renumbered_unique :
    ((keptSymbols commands).map (remapSymbol (symbolRemap commands))).Nodup :=
  unique.map_on fun _ kept _ kept' => remapSymbol_injective unique kept kept'

/-- The symbols of a renumbered stream are their own new ids. -/
theorem renumbered_remap (symbol : SymbolId) :
    (symbolRemap (relabel (symbolRemap commands) ids 0 commands)).find? symbol =
      if symbol ∈ (keptSymbols commands).map (remapSymbol (symbolRemap commands)) then some symbol
      else none := by
  rw [symbolRemap, renumbered_kept unique]
  split
  · rename_i member
    rw [assign_find? (renumbered_unique unique) member]
    obtain ⟨old, kept, rfl⟩ := mem_map.mp member
    rw [FirstSeen.idxOf_map (fun _ kept _ kept' => remapSymbol_injective unique kept kept') unique
      kept, ← remapSymbol_kept unique kept, UInt32.zero_add]
  · rename_i missing
    exact assign_missing missing

end Again

/-- The second renumbering finds every symbol and every order id in place, or it finds a name
twice and does nothing. -/
theorem renumber_idempotent (commands : List Command) :
    renumber (renumber commands) = renumber commands := by
  by_cases unique : (commands.filterMap Command.name?).Nodup
  · have names := relabel_names (symbolRemap commands) (idRank (seenIds commands)) 0 commands
    rw [ownedSymbols_kept] at names
    rw [renumber_unique unique]
    by_cases distinct : (keptSymbols commands).Nodup
    · have owned := renumbered_owned distinct (idRank (seenIds commands))
      have remap := renumbered_remap distinct (idRank (seenIds commands))
      have once := (renumbered_unique distinct).map renumberedName_injective
      rw [← names] at once
      rw [renumber_unique once]
      apply relabel_self
      · rw [owned, names]
      · intro symbol member
        rw [owned] at member
        rw [remap, if_pos member]
      · intro symbol
        rw [remapSymbol, remap]
        split <;> rfl
      · exact renumbered_ids _ _ commands
    · apply renumber_repeated
      rw [names]
      intro once
      exact distinct (List.Nodup.of_map _ (List.Nodup.of_map _ once))
  · rw [renumber_repeated unique, renumber_repeated unique]

end Qsl
