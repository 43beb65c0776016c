import Qsl.Accounts
import Qsl.EventStream

namespace Qsl

open List
open Accounts

/-- Orders are known by symbol and id. -/
abbrev OrderKey := SymbolId × OrderId

/-- The quantity a command submits. -/
def Command.quantity : Command → Quantity
  | .newLimit _ _ _ _ quantity _ => quantity
  | .newMarket _ _ _ quantity => quantity
  | .modify _ _ _ quantity => quantity
  | _ => 0

theorem Command.quantity_target {command : Command} {symbol : SymbolId} {op : BookOp}
    (targets : command.target = some (symbol, op)) : command.quantity = op.submitted := by
  cases command <;> cases targets <;> rfl

namespace EngineEvent

def names (symbol : SymbolId) (id : OrderId) : EngineEvent → Prop
  | .orderAccepted _ other order => other = symbol ∧ order = id
  | .orderModified _ other order => other = symbol ∧ order = id
  | .orderCanceled _ other order => other = symbol ∧ order = id
  | .tradeEvent _ other taker maker _ _ => other = symbol ∧ (taker = id ∨ maker = id)

def accepts (symbol : SymbolId) (id : OrderId) (event : EngineEvent) : Prop :=
  ∃ seq, event = .orderAccepted seq symbol id

def modifies (symbol : SymbolId) (id : OrderId) (event : EngineEvent) : Prop :=
  ∃ seq, event = .orderModified seq symbol id

def cancels (symbol : SymbolId) (id : OrderId) (event : EngineEvent) : Prop :=
  ∃ seq, event = .orderCanceled seq symbol id

/-- The event of a command that submits a quantity for the order. -/
def submits (symbol : SymbolId) (id : OrderId) (event : EngineEvent) : Prop :=
  event.accepts symbol id ∨ event.modifies symbol id

/-- The quantity of a trade that names the order. -/
def traded (symbol : SymbolId) (id : OrderId) : EngineEvent → Nat
  | .tradeEvent _ other taker maker _ quantity =>
    if other = symbol ∧ (taker = id ∨ maker = id) then quantity.toNat else 0
  | _ => 0

/-- An event as an entry in the accounts of the orders it names. -/
def entry (submitted : Quantity) : EngineEvent → Entry OrderKey
  | .orderAccepted _ symbol id => .opened (symbol, id) submitted.toNat
  | .orderModified _ symbol id => .changed (symbol, id) submitted.toNat
  | .orderCanceled _ symbol id => .closed (symbol, id)
  | .tradeEvent _ symbol taker maker _ quantity =>
    .settled (symbol, taker) (symbol, maker) quantity.toNat

variable {symbol : SymbolId} {id : OrderId} {event : EngineEvent} {submitted : Quantity}

end EngineEvent

def Trade.entry (symbol : SymbolId) (trade : Trade) : Entry OrderKey :=
  .settled (symbol, trade.takerId) (symbol, trade.makerId) trade.quantity.toNat

theorem tradeEvents_entries (symbol : SymbolId) (seq : SeqNo) (trades : List Trade)
    (submitted : Quantity) :
    (tradeEvents symbol seq trades).map (EngineEvent.entry submitted) =
      trades.map (Trade.entry symbol) := by
  induction trades generalizing seq with
  | nil => rfl
  | cons trade trades ih => rw [tradeEvents, map_cons, ih, map_cons]; rfl

section Sweep

variable {symbol : SymbolId} {taker : Taker}

/-- A fill of something wanted from something alive trades something. -/
theorem traded_pos {quantity alive : Quantity} (wanted : quantity ≠ 0) (positive : 0 < alive) :
    0 < (min quantity alive).toNat := by
  have some := UInt32.lt_iff_toNat_lt.mp positive
  have more := UInt32.lt_iff_toNat_lt.mp ((quantity_pos quantity).mpr wanted)
  rw [UInt32.toNat_zero] at some more
  rcases fill_cases quantity alive with ⟨_, same, _⟩ | ⟨_, same, _, _⟩
  · rw [same]
    exact some
  · rw [same]
    exact more

/-- One trade posts: both sides give up the traded quantity, the other accounts nothing. -/
theorem trade_posts {maker : Order} {quantity : Quantity} {balance : OrderKey → Nat}
    (other : maker.id ≠ taker.id) (wanted : quantity ≠ 0) (positive : 0 < maker.quantity)
    (incoming : balance (symbol, taker.id) = quantity.toNat)
    (owned : balance (symbol, maker.id) = maker.quantity.toNat) :
    ∃ next, post balance (Trade.entry symbol
        ⟨taker.id, maker.id, maker.price, min quantity maker.quantity⟩) = some next ∧
      next (symbol, taker.id) = (quantity - min quantity maker.quantity).toNat ∧
      next (symbol, maker.id) = (maker.quantity - min quantity maker.quantity).toNat ∧
      ∀ key, key ≠ (symbol, taker.id) → key ≠ (symbol, maker.id) → next key = balance key := by
  have differ : (symbol, taker.id) ≠ (symbol, maker.id) :=
    fun same => other (Prod.mk.inj same).2.symm
  obtain ⟨fromTaker, fromMaker, takerLeft, makerLeft⟩ := fill_covered quantity maker.quantity
  refine ⟨Function.update
    (Function.update balance (symbol, taker.id) (quantity - min quantity maker.quantity).toNat)
    (symbol, maker.id) (maker.quantity - min quantity maker.quantity).toNat, ?_, ?_, ?_, ?_⟩
  · simp only [Trade.entry, post, incoming, owned]
    rw [if_pos ⟨differ, traded_pos wanted positive, fromTaker, fromMaker⟩, ← takerLeft, ← makerLeft]
  · rw [Function.update_of_ne differ, Function.update_self]
  · rw [Function.update_self]
  · intro key notTaker notMaker
    rw [Function.update_of_ne notMaker, Function.update_of_ne notTaker]

/-- A walk settles the taker with each maker it meets: both sides keep what the accounts say. -/
theorem sweep_posts {orders : List Order} {quantity : Quantity} {balance : OrderKey → Nat}
    (unique : (orders.map Order.id).Nodup) (apart : ∀ order ∈ orders, order.id ≠ taker.id)
    (positive : ∀ order ∈ orders, 0 < order.quantity)
    (incoming : balance (symbol, taker.id) = quantity.toNat)
    (resting : ∀ order ∈ orders, balance (symbol, order.id) = order.quantity.toNat) :
    ∃ after, postAll balance ((sweep taker orders quantity).trades.map (Trade.entry symbol)) =
        some after ∧
      after (symbol, taker.id) = (sweep taker orders quantity).remaining.toNat ∧
      (∀ order ∈ (sweep taker orders quantity).left,
        after (symbol, order.id) = order.quantity.toNat) ∧
      ∀ key, key ≠ (symbol, taker.id) → (∀ order ∈ orders, key ≠ (symbol, order.id)) →
        after key = balance key := by
  induction orders generalizing quantity balance with
  | nil => exact ⟨balance, rfl, incoming, nofun, fun _ _ _ => rfl⟩
  | cons maker rest ih =>
    by_cases stopped : quantity = 0 ∨ taker.crosses maker.price = false
    · rw [sweep_stop taker stopped]
      exact ⟨balance, rfl, incoming, resting, fun _ _ _ => rfl⟩
    · rw [not_or, Bool.not_eq_false] at stopped
      rw [map_cons, nodup_cons] at unique
      obtain ⟨next, posted, nextTaker, nextMaker, nextOther⟩ := trade_posts
        (apart maker mem_cons_self) stopped.1 (positive maker mem_cons_self) incoming
        (resting maker mem_cons_self)
      have nextRest : ∀ order ∈ rest, next (symbol, order.id) = order.quantity.toNat := by
        intro order member
        have distinct : order.id ≠ maker.id :=
          fun same => unique.1 (same ▸ mem_map_of_mem member)
        have later := apart order (mem_cons_of_mem _ member)
        rw [nextOther _ (fun same => later (Prod.mk.inj same).2)
          (fun same => distinct (Prod.mk.inj same).2)]
        exact resting order (mem_cons_of_mem _ member)
      by_cases exhausted : maker.quantity - min quantity maker.quantity = 0
      · obtain ⟨after, settled, remaining, left, kept⟩ := ih unique.2
          (fun order member => apart order (mem_cons_of_mem _ member))
          (fun order member => positive order (mem_cons_of_mem _ member)) nextTaker nextRest
        rw [sweep_exhaust taker stopped.1 stopped.2 exhausted]
        refine ⟨after, ?_, remaining, left, ?_⟩
        · simp only [map_cons, postAll, posted, Option.bind_some]
          exact settled
        · intro key notTaker notOrder
          rw [kept key notTaker
            (fun order member => notOrder order (mem_cons_of_mem _ member))]
          exact nextOther key notTaker (notOrder maker mem_cons_self)
      · rw [sweep_survive taker stopped.1 stopped.2 exhausted]
        refine ⟨next, ?_, nextTaker, ?_, ?_⟩
        · simp only [map_cons, map_nil, postAll, posted, Option.bind_some]
        · intro order member
          rcases mem_cons.mp member with rfl | later
          · exact nextMaker
          · exact nextRest order later
        · intro key notTaker notOrder
          exact nextOther key notTaker (notOrder maker mem_cons_self)

end Sweep

/-- The accounts hold what rests in the book. -/
def TracksBook (balance : OrderKey → Nat) (symbol : SymbolId) (book : Book) : Prop :=
  ∀ order ∈ book.restingOrders, balance (symbol, order.id) = order.quantity.toNat

section Calls

variable {symbol : SymbolId} {book : Book} {op : BookOp} {balance : OrderKey → Nat}

/-- Whatever the call, its opening event gives the account what the call submits. -/
theorem opening_posts (tracks : TracksBook balance symbol book) (valid : book.WellFormed)
    (admitted : book.admits op = true) (seq : SeqNo) :
    post balance ((op.opening symbol seq).entry op.submitted) =
      some (Function.update balance (symbol, op.id) op.submitted.toNat) := by
  have open_ : ∀ id, book.contains id = true → balance (symbol, id) ≠ 0 := by
    intro id resting
    obtain ⟨order, member, rfl⟩ := mem_map.mp (Book.contains_iff.mp resting)
    obtain ⟨side, inside⟩ := Book.mem_restingOrders.mp member
    have alive := UInt32.lt_iff_toNat_lt.mp (valid.positive side order inside)
    rw [UInt32.toNat_zero] at alive
    rw [tracks order member]
    omega
  cases op with
  | cancel id =>
    simp only [BookOp.opening, EngineEvent.entry, post, if_neg (open_ id admitted)]
    rfl
  | modify id newPrice newQuantity =>
    simp only [BookOp.opening, EngineEvent.entry, post, if_neg (open_ id admitted)]
    rfl
  | _ => rfl

/-- The events of a call post, and leave the accounts of its symbol with what rests then. -/
theorem call_posts (tracks : TracksBook balance symbol book) (valid : book.WellFormed)
    (admitted : book.admits op = true) (seq : SeqNo) :
    ∃ after, postAll balance ((op.opening symbol seq ::
        tradeEvents symbol seq (book.apply op).2.trades).map (EngineEvent.entry op.submitted)) =
        some after ∧
      TracksBook after symbol (book.apply op).1 ∧
      ∀ key : OrderKey, key.1 ≠ symbol → after key = balance key := by
  have opened := opening_posts tracks valid admitted seq
  have effect := Book.effect admitted
  rw [map_cons, tradeEvents_entries]
  simp only [postAll, opened, Option.bind_some]
  generalize (book.apply op).1 = left at effect
  generalize (book.apply op).2.trades = trades at effect
  have elsewhere : ∀ key : OrderKey, key.1 ≠ symbol →
      Function.update balance (symbol, op.id) op.submitted.toNat key = balance key := by
    intro key other
    exact Function.update_of_ne (fun same => other (congrArg Prod.fst same)) _ _
  have kept : ∀ side, ∀ order ∈ (book.remove op.id).side side,
      Function.update balance (symbol, op.id) op.submitted.toNat (symbol, order.id) =
        order.quantity.toNat := by
    intro side order member
    obtain ⟨resting, other⟩ := Book.mem_remove.mp member
    rw [Function.update_of_ne (fun same => other (Prod.mk.inj same).2)]
    exact tracks order (Book.mem_restingOrders.mpr ⟨side, resting⟩)
  cases effect with
  | removed nothing =>
    refine ⟨_, rfl, ?_, elsewhere⟩
    intro order member
    obtain ⟨side, inside⟩ := Book.mem_restingOrders.mp member
    exact kept side order inside
  | lowered source found priced positive covered =>
    refine ⟨_, rfl, ?_, elsewhere⟩
    intro order member
    obtain ⟨side, inside⟩ := Book.mem_restingOrders.mp member
    rw [Book.setQuantity_side, mem_map] at inside
    obtain ⟨old, resting, rfl⟩ := inside
    by_cases same : old.id = op.id
    · rw [Book.reduce, if_pos same]
      simp only [same, Function.update_self]
    · rw [Book.reduce, if_neg same]
      exact kept side old (Book.mem_remove.mpr ⟨resting, same⟩)
  | taken taker rests own limited =>
    have base := valid.remove op.id
    have absent := Book.contains_false_iff.mp (book.remove_absent op.id)
    have incoming : Function.update balance (symbol, op.id) op.submitted.toNat
        (symbol, taker.id) = op.submitted.toNat := by
      rw [own, Function.update_self]
    obtain ⟨after, posted, remaining, rest, frame⟩ := sweep_posts
      (base.unique_side taker.side.opposite)
      (fun order member => own ▸ absent _ order member) (base.positive _) incoming
      (kept taker.side.opposite)
    refine ⟨after, ?_, ?_, ?_⟩
    · rw [Book.take_trades]
      exact posted
    · intro order member
      obtain ⟨side, inside⟩ := Book.mem_restingOrders.mp member
      rcases Book.mem_take inside with ⟨_, rfl⟩ | same | swept
      · exact remaining
      · rw [frame _ (fun clash => absent _ order same (own ▸ (Prod.mk.inj clash).2)) ?_]
        · exact kept taker.side order same
        · intro maker opposite clash
          exact base.sides_apart same opposite (Prod.mk.inj clash).2.symm
      · exact rest order swept
    · intro key other
      rw [frame key (fun same => other (congrArg Prod.fst same))
        (fun order _ same => other (congrArg Prod.fst same))]
      exact elsewhere key other

end Calls

namespace Market

/-- The accounts hold what rests in every book. -/
def Tracked (balance : OrderKey → Nat) (market : Market) : Prop :=
  ∀ symbol book, market.books.find? symbol = some book → TracksBook balance symbol book

variable {balance : OrderKey → Nat} {market : Market}

theorem Tracked.registerSymbol (tracked : market.Tracked balance) (name : SymbolName) :
    (market.registerSymbol name).Tracked balance := by
  intro symbol book found
  rcases market.registerSymbol_find? name symbol with same | ⟨_, fresh⟩
  · exact tracked symbol book (same.symm.trans found)
  · cases fresh.symm.trans found
    exact nofun

/-- Every command's events post to the accounts. -/
theorem Tracked.apply (tracked : market.Tracked balance) (valid : market.WellFormed)
    (command : Command) :
    ∃ after, postAll balance
        ((market.apply command).2.map (EngineEvent.entry command.quantity)) = some after ∧
      (market.apply command).1.Tracked after := by
  rcases market.apply_target command with ⟨name, _, applied⟩ | ⟨symbol, op, targets, applied⟩
  · rw [applied]
    exact ⟨balance, rfl, tracked.registerSymbol name⟩
  · rw [applied]
    rcases market.call_cases symbol op with idle | ⟨book, known, admitted⟩
    · rw [idle]
      exact ⟨balance, rfl, tracked⟩
    · rw [call_admitted known admitted, Command.quantity_target targets]
      obtain ⟨after, posted, own, others⟩ :=
        call_posts (tracked symbol book known) (valid symbol book known) admitted (market.seq + 1)
      refine ⟨after, posted, ?_⟩
      intro other stored found
      rw [OrderedMap.find?_insert] at found
      split at found
      · rename_i same
        cases found
        rw [same]
        exact own
      · rename_i apart
        intro order member
        rw [others (other, order.id) apart]
        exact tracked other stored found order member

theorem Tracked.offer (tracked : market.Tracked balance) (valid : market.WellFormed)
    (storage : Storage) (command : Command) :
    ∃ after, postAll balance
        ((market.offer storage command).2.map (EngineEvent.entry command.quantity)) = some after ∧
      (market.offer storage command).1.Tracked after := by
  rw [Market.offer]
  split
  · exact tracked.apply valid command
  · exact ⟨balance, rfl, tracked⟩

theorem WellFormed.offer (valid : market.WellFormed) (storage : Storage) (command : Command) :
    (market.offer storage command).1.WellFormed := by
  rw [Market.offer]
  split
  · exact valid.apply command
  · exact valid

end Market

/-- Their entries in the accounts. -/
def entries (recorded : List (Command × EngineEvent)) : List (Entry OrderKey) :=
  recorded.map (fun step => step.2.entry step.1.quantity)

section History

variable {symbol : SymbolId} {id : OrderId} {balance after : OrderKey → Nat}
  {recorded front since middle back : List (Command × EngineEvent)}
  {opening last next : Command × EngineEvent}

end History

end Qsl
