import Qsl.GatewayRefinement

namespace Qsl

namespace OrderBook

/-- One mutating call on the book in use. -/
def apply (book : OrderBook) : BookOp → OrderBook × BookReply
  | .addLimit id side price quantity tif =>
    let (after, trades) := book.addLimit id side price quantity tif
    (after, .traded trades)
  | .addMarket id side quantity =>
    let (after, trades) := book.addMarket id side quantity
    (after, .traded trades)
  | .cancel id =>
    let (after, found) := book.cancel id
    (after, .cancelled found)
  | .modify id newPrice newQuantity =>
    let (after, trades) := book.modify id newPrice newQuantity
    (after, .traded trades)

/-- What the engine asks the book before it emits anything. -/
def accepts (book : OrderBook) : BookOp → Bool
  | .addLimit id side price quantity tif =>
    !book.contains id && book.canStoreLimit side price quantity tif
  | .addMarket id _ _ => !book.contains id
  | .cancel id => (book.cancel id).2
  | .modify id newPrice newQuantity =>
    book.contains id && book.canApplyModify id newPrice newQuantity

/-- The mode a book works in; the pooled one is the baseline. -/
def mode : OrderBook → Storage
  | .baseline _ => .baseline
  | .intrusive _ => .intrusivePooled
  | .contiguous _ => .contiguous

@[simp] theorem apply_mode (book : OrderBook) (op : BookOp) : (book.apply op).1.mode = book.mode := by
  cases book <;> cases op <;> rfl

/-- A cancel that finds nothing leaves the book alone. -/
theorem cancel_missing {book : OrderBook} {id : OrderId} (missing : (book.cancel id).2 = false) :
    (book.cancel id).1 = book := by
  cases book with
  | baseline store =>
    simp only [cancel, BaselineStore.cancel] at missing ⊢
    cases found : store.index.find? id with
    | none => rfl
    | some loc => simp [found] at missing
  | intrusive store =>
    simp only [cancel, IntrusiveStore.cancel] at missing ⊢
    cases found : store.pools.index.find? id with
    | none => rfl
    | some loc => simp [found] at missing
  | contiguous store =>
    simp only [cancel, ContiguousStore.cancel] at missing ⊢
    cases found : store.index.find? id with
    | none => rfl
    | some loc => simp [found] at missing

end OrderBook

namespace MatchingEngine

variable {engine : MatchingEngine} {symbol : SymbolId} {op : BookOp}

/-- Every mutator does one of two things: nothing at all, or the book's operation with the
events that report it. -/
theorem call_eq (engine : MatchingEngine) (symbol : SymbolId) (op : BookOp) :
    engine.call symbol op =
      match engine.findBook symbol with
      | none => (engine, [])
      | some book =>
        if book.accepts op then
          engine.commit symbol (book.apply op).1 (op.opening symbol) (book.apply op).2.trades
        else (engine, []) := by
  cases op with
  | addLimit id side price quantity tif =>
    simp only [call, newLimit]
    cases engine.findBook symbol with
    | none => rfl
    | some book =>
      cases known : book.contains id with
      | true => simp [OrderBook.accepts, known]
      | false =>
        cases room : book.canStoreLimit side price quantity tif with
        | true =>
          simp only [OrderBook.accepts, known, room]
          rfl
        | false => simp [OrderBook.accepts, known, room]
  | addMarket id side quantity =>
    simp only [call, newMarket]
    cases engine.findBook symbol with
    | none => rfl
    | some book =>
      cases known : book.contains id with
      | true => simp [OrderBook.accepts, known]
      | false =>
        simp only [OrderBook.accepts, known]
        rfl
  | cancel id =>
    simp only [call, cancel]
    cases found : engine.findBook symbol with
    | none => rfl
    | some book =>
      cases known : (book.cancel id).2 with
      | true =>
        simp only [OrderBook.accepts, known]
        rfl
      | false =>
        simp only [OrderBook.accepts, known, OrderBook.cancel_missing known]
        rw [OrderedMap.insert_self _ found]
        rfl
  | modify id newPrice newQuantity =>
    simp only [call, modify]
    cases engine.findBook symbol with
    | none => rfl
    | some book =>
      cases known : book.contains id with
      | false => simp [OrderBook.accepts, known]
      | true =>
        cases room : book.canApplyModify id newPrice newQuantity with
        | true =>
          simp only [OrderBook.accepts, known, room]
          rfl
        | false => simp [OrderBook.accepts, known, room]

/-- The same as a case split. -/
theorem call_cases (engine : MatchingEngine) (symbol : SymbolId) (op : BookOp) :
    engine.call symbol op = (engine, []) ∨
      ∃ book, engine.findBook symbol = some book ∧ book.accepts op = true ∧
        engine.call symbol op =
          engine.commit symbol (book.apply op).1 (op.opening symbol) (book.apply op).2.trades := by
  rw [call_eq]
  cases found : engine.findBook symbol with
  | none => exact Or.inl rfl
  | some book =>
    cases accepted : book.accepts op with
    | false => exact Or.inl (if_neg (by simp [accepted]))
    | true => exact Or.inr ⟨book, rfl, accepted, if_pos accepted⟩

/-- A command is a registration or a call on one book. -/
theorem apply_target (engine : MatchingEngine) (command : Command) :
    (∃ name, command = .registerSymbol name ∧
        engine.apply command = ((engine.registerSymbol name).1, [])) ∨
      ∃ symbol op, command.target = some (symbol, op) ∧
        engine.apply command = engine.call symbol op := by
  cases command with
  | registerSymbol name => exact Or.inl ⟨name, rfl, rfl⟩
  | newLimit symbol id side price quantity tif => exact Or.inr ⟨symbol, _, rfl, rfl⟩
  | newMarket symbol id side quantity => exact Or.inr ⟨symbol, _, rfl, rfl⟩
  | cancel symbol id => exact Or.inr ⟨symbol, _, rfl, rfl⟩
  | modify symbol id price quantity => exact Or.inr ⟨symbol, _, rfl, rfl⟩

/-- Every book works in the mode the engine makes its books in. -/
def Uniform (engine : MatchingEngine) : Prop :=
  ∀ symbol book, engine.findBook symbol = some book →
    book.mode = (OrderBook.new engine.bookStorage).mode

theorem uniform_new (storage : Storage) : (new storage).Uniform := by
  intro symbol book found
  cases found

theorem Uniform.registerSymbol (uniform : engine.Uniform) (name : SymbolName) :
    (engine.registerSymbol name).1.Uniform := by
  intro symbol book found
  rcases engine.registerSymbol_findBook name symbol with same | ⟨_, fresh⟩
  · exact uniform symbol book (same.symm.trans found)
  · cases fresh.symm.trans found
    rfl

theorem Uniform.call (uniform : engine.Uniform) (symbol : SymbolId) (op : BookOp) :
    (engine.call symbol op).1.Uniform := by
  rcases engine.call_cases symbol op with idle | ⟨book, found, _, done⟩
  · rw [idle]
    exact uniform
  · rw [done]
    intro other after located
    simp only [commit, findBook, OrderedMap.find?_insert] at located
    split at located
    · cases located
      rw [OrderBook.apply_mode]
      exact uniform symbol book found
    · exact uniform other after located

theorem call_storage (engine : MatchingEngine) (symbol : SymbolId) (op : BookOp) :
    (engine.call symbol op).1.bookStorage = engine.bookStorage := by
  rcases engine.call_cases symbol op with idle | ⟨book, _, _, done⟩
  · rw [idle]
  · rw [done]
    rfl

theorem Uniform.apply (uniform : engine.Uniform) (command : Command) :
    (engine.apply command).1.Uniform ∧
      (engine.apply command).1.bookStorage = engine.bookStorage := by
  rcases engine.apply_target command with ⟨name, _, applied⟩ | ⟨symbol, op, _, applied⟩
  · rw [applied]
    exact ⟨uniform.registerSymbol name, rfl⟩
  · rw [applied]
    exact ⟨uniform.call symbol op, engine.call_storage symbol op⟩

end MatchingEngine

end Qsl
