import Qsl.ContiguousGarbage

/- `ContiguousStore` with the 32-bit counters of the source: `head`, `alive` and `pos` wrap at 2^32.
A level's vector has no such limit, so the counters are exact only while it is shorter. -/
namespace Qsl.ContiguousStore.Wrapping

open List

/-- A value as `uint32_t` keeps it. -/
def uint32 (value : Nat) : Nat := value % 2 ^ 32

/-- `--counter` on `uint32_t`. -/
def decrement (counter : Nat) : Nat := uint32 (counter + (2 ^ 32 - 1))

def advanceHeadStep (level : FlatLevel) : Option FlatLevel :=
  match level.orders[level.head]? with
  | none => none
  | some order =>
    if order.quantity = 0 then some { level with head := uint32 (level.head + 1) } else none

/-- A cursor still moving after 2^32 iterations has come round and never stops. -/
def advanceHead (level : FlatLevel) : FlatLevel := WhileLoop.run advanceHeadStep (2 ^ 32) level

def compactStep (state : Index × List FlatOrder) (order : FlatOrder) : Index × List FlatOrder :=
  if order.quantity = 0 then state
  else
    let index := match state.1.find? order.id with
      | none => state.1
      | some loc => state.1.insert order.id { loc with pos := uint32 state.2.length }
    (index, state.2 ++ [order])

def compactLevel (index : Index) (level : FlatLevel) : FlatLevel × Index :=
  let (index', live) := (level.orders.drop level.head).foldl compactStep (index, [])
  ({ level with orders := live, head := 0 }, index')

/-- `dead` is a difference of `size_t`. -/
def maybeCompact (index : Index) (level : FlatLevel) : FlatLevel × Index :=
  let dead := (level.orders.length + (2 ^ 64 - level.alive)) % 2 ^ 64
  if level.orders.length ≥ compactMinSize ∧ dead > level.alive then compactLevel index level
  else (level, index)

def rest (store : ContiguousStore) (id : OrderId) (side : Side) (price : Price)
    (quantity : Quantity) : ContiguousStore × Bool :=
  if !inBand price then (store, false)
  else
    let bookSide := store.sideRef side
    let slot := slotOf price
    let level := bookSide.levels slot
    let bits := if level.alive = 0 then Bitmap.set bookSide.bits slot else bookSide.bits
    let level' : FlatLevel :=
      { level with orders := level.orders ++ [⟨id, quantity⟩], alive := uint32 (level.alive + 1) }
    ({ store.setSideRef side { bookSide.setLevel slot level' with bits := bits } with
        index := store.index.insert id ⟨side, price, uint32 level.orders.length⟩ }, true)

def fillFrontOrder (levelPrice : Price) (fill : LevelFill) : LevelFill :=
  match fill.level.orders[fill.level.head]? with
  | none => fill
  | some maker =>
    let (ctx, quantity, exhausted) := fillMaker fill.ctx maker.id maker.quantity levelPrice
    let level := { fill.level with
      orders := fill.level.orders.set fill.level.head ⟨maker.id, quantity⟩ }
    if exhausted then
      ⟨advanceHead { level with alive := decrement level.alive }, fill.index.erase maker.id, ctx⟩
    else ⟨level, fill.index, ctx⟩

def fillLevelStep (levelPrice : Price) (fill : LevelFill) : Option LevelFill :=
  if fill.ctx.quantity ≠ 0 ∧ fill.level.alive > 0 then some (fillFrontOrder levelPrice fill)
  else none

def fillLevel (level : FlatLevel) (levelPrice : Price) (index : Index) (ctx : MatchContext) :
    LevelFill :=
  WhileLoop.run (fillLevelStep levelPrice) (level.orders.length + 1) ⟨level, index, ctx⟩

def matchAgainstStep (oppositeIsBid : Bool) (walk : Walk) : Option Walk :=
  if walk.ctx.quantity = 0 then none
  else
    match bestSlot walk.opposite oppositeIsBid with
    | none => none
    | some slot =>
      let levelPrice := priceOf slot
      if !canMatchLevel walk.ctx.takerIsBuy walk.ctx.isMarket walk.ctx.limit levelPrice then none
      else
        let fill := fillLevel (walk.opposite.levels slot) levelPrice walk.index walk.ctx
        if fill.level.alive = 0 then
          some ⟨clearLevel (walk.opposite.setLevel slot fill.level) slot, fill.index, fill.ctx⟩
        else
          let (level, index) := maybeCompact fill.index fill.level
          some ⟨walk.opposite.setLevel slot level, index, fill.ctx⟩

def matchAgainst (oppositeIsBid : Bool) (walk : Walk) : Walk :=
  WhileLoop.run (matchAgainstStep oppositeIsBid) (bandWidth + 1) walk

def matchOpposite (side : Side) (store : ContiguousStore) (ctx : MatchContext) :
    ContiguousStore × MatchContext :=
  let takerIsBuy := side == .buy
  let walk := matchAgainst (!takerIsBuy) ⟨store.sideRef side.opposite, store.index, ctx⟩
  ({ store.setSideRef side.opposite walk.opposite with index := walk.index }, walk.ctx)

def addLimit (store : ContiguousStore) (input : LimitInput) : ContiguousStore × List Trade :=
  if !store.canStoreLimit input.side input.price input.quantity input.tif then (store, [])
  else
    let (matched, result) := matchIncoming store input.id input.side input.price false
      input.quantity (fun store => store.contains input.id) matchOpposite
    if shouldRestLimit result input.tif then
      ((rest matched input.id input.side input.price result.remainder).1, result.trades)
    else (matched, result.trades)

def addMarket (store : ContiguousStore) (id : OrderId) (side : Side) (quantity : Quantity) :
    ContiguousStore × List Trade :=
  let (matched, result) := matchIncoming store id side 0 true quantity
    (fun store => store.contains id) matchOpposite
  (matched, result.trades)

def removeResting (store : ContiguousStore) (loc : Locator) : ContiguousStore :=
  let bookSide := store.sideRef loc.side
  let slot := slotOf loc.price
  let marked := (bookSide.levels slot).setQuantity loc.pos 0
  let level := { marked with alive := decrement marked.alive }
  if level.alive = 0 then store.setSideRef loc.side (clearLevel (bookSide.setLevel slot level) slot)
  else
    let level := if loc.pos = level.head then advanceHead level else level
    let (level, index) := maybeCompact store.index level
    { store.setSideRef loc.side (bookSide.setLevel slot level) with index := index }

def cancel (store : ContiguousStore) (id : OrderId) : ContiguousStore × Bool :=
  match store.index.find? id with
  | none => (store, false)
  | some loc => (removeResting { store with index := store.index.erase id } loc, true)

def modify (store : ContiguousStore) (id : OrderId) (newPrice : Price) (newQuantity : Quantity) :
    ContiguousStore × List Trade :=
  match store.index.find? id with
  | none => (store, [])
  | some loc =>
    if !store.canApplyModify id newPrice newQuantity then (store, [])
    else if newQuantity = 0 then ((cancel store id).1, [])
    else if store.reducesInPlace loc newPrice newQuantity then
      let bookSide := store.sideRef loc.side
      let level := (bookSide.levels (slotOf loc.price)).setQuantity loc.pos newQuantity
      (store.setSideRef loc.side (bookSide.setLevel (slotOf loc.price) level), [])
    else addLimit (cancel store id).1 ⟨id, loc.side, newPrice, newQuantity, .gtc⟩

def apply (store : ContiguousStore) : BookOp → ContiguousStore × BookReply
  | .addLimit id side price quantity tif =>
    let (after, trades) := addLimit store ⟨id, side, price, quantity, tif⟩
    (after, .traded trades)
  | .addMarket id side quantity =>
    let (after, trades) := addMarket store id side quantity
    (after, .traded trades)
  | .cancel id =>
    let (after, found) := cancel store id
    (after, .cancelled found)
  | .modify id newPrice newQuantity =>
    let (after, trades) := modify store id newPrice newQuantity
    (after, .traded trades)

/-- A 32-bit contiguous and a baseline book after the same calls, less the refused ones. -/
def drive (ops : List BookOp) : ContiguousStore × BaselineStore :=
  Lockstep.drive apply refuses empty ops

theorem uint32_eq {value : Nat} (small : value < 2 ^ 32) : uint32 value = value :=
  Nat.mod_eq_of_lt small

theorem decrement_eq {counter : Nat} (positive : 0 < counter) (small : counter < 2 ^ 32) :
    decrement counter = counter - 1 := by
  rw [decrement, uint32]
  omega

theorem advanceHead_run (bound : Nat) {level : FlatLevel} (small : level.orders.length < 2 ^ 32)
    (enough : level.orders.length - level.head < bound) :
    WhileLoop.run advanceHeadStep bound level = ContiguousStore.advanceHead level := by
  -- the cursor stays inside the vector, whose length bounds the iterations
  induction bound generalizing level with
  | zero => cases enough
  | succ bound ih =>
    cases found : level.orders[level.head]? with
    | none =>
      have ended : advanceHeadStep level = none := by simp only [advanceHeadStep, found]
      rw [WhileLoop.run_stop _ _ _ ended, ContiguousStore.advanceHead,
        drop_of_length_le (List.getElem?_eq_none_iff.mp found)]
      rfl
    | some order =>
      obtain ⟨inside, same⟩ := List.getElem?_eq_some_iff.mp found
      have parts := drop_eq_getElem_cons inside
      rw [same] at parts
      by_cases dead : order.quantity = 0
      · let next : FlatLevel := { level with head := level.head + 1 }
        have moved : advanceHeadStep level = some next := by
          simp only [advanceHeadStep, found, if_pos dead,
            uint32_eq (show level.head + 1 < 2 ^ 32 by omega), next]
        have left : next.orders.length - next.head < bound := by
          change level.orders.length - (level.head + 1) < bound
          omega
        have onward := @ih next small left
        rw [WhileLoop.run_step _ _ _ _ moved, onward,
          ContiguousStore.advanceHead, ContiguousStore.advanceHead, parts,
          takeWhile_cons_of_pos (by simpa using dead), length_cons,
          Nat.add_comm _ 1, ← Nat.add_assoc]
      · have ended : advanceHeadStep level = none := by
          simp only [advanceHeadStep, found, if_neg dead]
        rw [WhileLoop.run_stop _ _ _ ended, ContiguousStore.advanceHead, parts,
          takeWhile_cons_of_neg (by simpa using dead)]
        rfl

theorem compactStep_length (state : Index × List FlatOrder) (order : FlatOrder) :
    (ContiguousStore.compactStep state order).2.length ≤ state.2.length + 1 := by
  rw [ContiguousStore.compactStep]
  split
  · exact Nat.le_succ _
  · rw [length_append, length_singleton]

theorem compactStep_run (orders : List FlatOrder) (state : Index × List FlatOrder)
    (few : state.2.length + orders.length < 2 ^ 32) :
    orders.foldl compactStep state = orders.foldl ContiguousStore.compactStep state := by
  induction orders generalizing state with
  | nil => rfl
  | cons order orders ih =>
    rw [length_cons] at few
    have step : compactStep state order = ContiguousStore.compactStep state order := by
      rw [compactStep, uint32_eq (by omega)]
      rfl
    have longer := compactStep_length state order
    rw [foldl_cons, foldl_cons, step]
    apply ih
    omega

section Level

variable {level : FlatLevel} (small : level.orders.length < 2 ^ 32)

include small

theorem advanceHead_eq : advanceHead level = ContiguousStore.advanceHead level :=
  advanceHead_run _ small (by omega)

theorem maybeCompact_eq (counted : level.alive ≤ level.orders.length) (index : Index) :
    maybeCompact index level = ContiguousStore.maybeCompact index level := by
  have dead : (level.orders.length + (2 ^ 64 - level.alive)) % 2 ^ 64 =
      level.orders.length - level.alive := by omega
  have compacted : compactLevel index level = ContiguousStore.compactLevel index level := by
    rw [compactLevel, ContiguousStore.compactLevel, compactStep_run]
    rw [length_nil, length_drop]
    omega
  rw [maybeCompact, ContiguousStore.maybeCompact, dead, compacted]

omit small in
theorem fillFrontOrder_eq {fill : LevelFill} (short : fill.level.orders.length < 2 ^ 32)
    (few : fill.level.alive < 2 ^ 32) (occupied : 0 < fill.level.alive) (price : Price) :
    fillFrontOrder price fill = ContiguousStore.fillFrontOrder price fill := by
  cases found : fill.level.orders[fill.level.head]? with
  | none => simp only [fillFrontOrder, ContiguousStore.fillFrontOrder, found]
  | some maker =>
    simp only [fillFrontOrder, ContiguousStore.fillFrontOrder, found, decrement_eq occupied few]
    rw [advanceHead_eq]
    rw [length_set]
    exact short

theorem fillLevel_eq (counted : level.alive ≤ level.orders.length) (price : Price) (index : Index)
    (ctx : MatchContext) :
    fillLevel level price index ctx = ContiguousStore.fillLevel level price index ctx := by
  apply WhileLoop.run_congr (fun fill : LevelFill =>
    fill.level.orders.length < 2 ^ 32 ∧ fill.level.alive < 2 ^ 32) _ _
    ⟨small, Nat.lt_of_le_of_lt counted small⟩
  · intro fill ⟨short, few⟩
    rw [fillLevelStep, ContiguousStore.fillLevelStep]
    split
    · rename_i guard
      rw [fillFrontOrder_eq short few guard.2]
    · rfl
  · intro fill next taken ⟨short, few⟩
    rw [ContiguousStore.fillLevelStep] at taken
    split at taken
    · cases taken
      rw [fillFrontOrder_length]
      refine ⟨short, ?_⟩
      simp only [ContiguousStore.fillFrontOrder]
      split
      · exact few
      · split
        · exact Nat.lt_of_le_of_lt (Nat.sub_le _ 1) few
        · exact few
    · cases taken

end Level

/-- A bound on the entries at each slot. -/
def AtMost (bound : Nat → Nat) (slot : Nat) (level : FlatLevel) : Prop :=
  level.orders.length ≤ bound slot

theorem compactStep_run_length (orders : List FlatOrder) (state : Index × List FlatOrder) :
    (orders.foldl ContiguousStore.compactStep state).2.length ≤ state.2.length + orders.length := by
  induction orders generalizing state with
  | nil => exact Nat.le_refl _
  | cons order orders ih =>
    have longer := compactStep_length state order
    have later := ih (ContiguousStore.compactStep state order)
    rw [foldl_cons, length_cons]
    omega

theorem maybeCompact_length (index : Index) (level : FlatLevel) :
    (ContiguousStore.maybeCompact index level).1.orders.length ≤ level.orders.length := by
  rw [ContiguousStore.maybeCompact]
  split
  · apply Nat.le_trans (compactStep_run_length _ _)
    rw [length_nil, length_drop]
    omega
  · exact Nat.le_refl _

theorem length_rule (bound : Nat → Nat) : LevelRule (AtMost bound) where
  cleared := fun slot => Nat.zero_le (bound slot)
  compacted := by
    intro slot level written index same short
    rw [AtMost, ← same] at short
    exact Nat.le_trans (maybeCompact_length index written) short
  reduced := by
    intro slot level pos quantity _ short
    rw [AtMost, FlatLevel.setQuantity, length_modify]
    exact short

/-- Room for so many entries more at each slot. -/
def Room (more : Nat → Nat) : Nat → FlatLevel → Prop := AtMost (fun slot => 2 ^ 32 - 1 - more slot)

theorem Room.small {more : Nat → Nat} {slot : Nat} {level : FlatLevel}
    (room : Room more slot level) : level.orders.length < 2 ^ 32 := by
  rw [Room, AtMost] at room
  omega

section Match

variable {side : Side} {own : List (OrderId × Locator)} {walk : Walk}
variable {buckets : List (Price × List Order)} {more : Nat → Nat}

theorem matchAgainstStep_eq (means : WalkMeans side own walk buckets)
    (room : EverySide (Room more) walk.opposite) :
    matchAgainstStep (side == .buy) walk =
      ContiguousStore.matchAgainstStep (side == .buy) walk := by
  rw [matchAgainstStep, ContiguousStore.matchAgainstStep]
  split
  · rfl
  · cases best : bestSlot walk.opposite (side == .buy) with
    | none => rfl
    | some slot =>
      cases crossing : canMatchLevel walk.ctx.takerIsBuy walk.ctx.isMarket walk.ctx.limit
          (priceOf slot) with
      | false => simp only [crossing, Bool.not_false, if_true]
      | true =>
        -- `alive` counts entries of the vector, before the fills and after them
        have leads := bestSlot_leads walk.opposite side
        rw [best] at leads
        have inside : slot < bandWidth := by
          have listed : slot ∈ occupied side walk.opposite.bits := by
            rw [leads]
            exact mem_cons_self
          exact mem_slots.mp (mem_filter.mp listed).1
        have sound := (means.valid.tidy slot inside).toSound
        obtain ⟨others, exact⟩ := index_level inside means.index
        have filled := (fillLevel_means sound
          (by rw [MatchContext.taker_crosses]; exact crossing) exact).2.sound
        have small := (room slot).small
        have short := (fillLevel_length (walk.opposite.levels slot) (priceOf slot) walk.index
          walk.ctx).trans_lt small
        simp only [crossing, Bool.not_true, Bool.false_eq_true, if_false,
          fillLevel_eq small sound.alive_le, maybeCompact_eq short filled.alive_le]

theorem matchAgainst_eq (means : WalkMeans side own walk buckets)
    (room : EverySide (Room more) walk.opposite) :
    matchAgainst (side == .buy) walk = ContiguousStore.matchAgainst (side == .buy) walk := by
  apply WhileLoop.run_congr (fun walk : Walk =>
    (∃ buckets, WalkMeans side own walk buckets) ∧ EverySide (Room more) walk.opposite) _ _
    ⟨⟨buckets, means⟩, room⟩
  · intro walk ⟨⟨_, means⟩, room⟩
    exact matchAgainstStep_eq means room
  · intro walk next taken ⟨⟨buckets, means⟩, room⟩
    exact ⟨(walkSpec side own).next means taken, (length_rule _).matchAgainstStep _ taken room⟩

end Match

theorem removeResting_eq {store : ContiguousStore} {loc : Locator} {level : FlatLevel}
    (found : (store.sideRef loc.side).levels (slotOf loc.price) = level)
    (occupied : 0 < level.alive) (counted : level.alive ≤ level.orders.length)
    (small : level.orders.length < 2 ^ 32) : removeResting store loc = store.removeResting loc := by
  let removed : FlatLevel := { level.setQuantity loc.pos 0 with alive := level.alive - 1 }
  have length : removed.orders.length = level.orders.length := length_modify ..
  have fewer : removed.alive ≤ removed.orders.length := by
    rw [length]
    exact Nat.le_trans (Nat.sub_le _ 1) counted
  have short : removed.orders.length < 2 ^ 32 := length ▸ small
  have marked : (level.setQuantity loc.pos 0).alive = level.alive := rfl
  simp only [removeResting, ContiguousStore.removeResting, found, marked,
    decrement_eq occupied (Nat.lt_of_le_of_lt counted small)]
  split
  · rfl
  · split
    · rw [@advanceHead_eq removed short,
        @maybeCompact_eq (ContiguousStore.advanceHead removed) short fewer]
    · rw [@maybeCompact_eq removed short fewer]

section Calls

variable {store : ContiguousStore} (valid : store.Valid) {more : Nat → Nat}
variable (room : EveryLevel (Room more) store)

include valid room

theorem matchIncoming_eq (id : OrderId) (side : Side) (limit : Price) (isMarket : Bool)
    (quantity : Quantity) :
    matchIncoming store id side limit isMarket quantity (fun store => store.contains id)
        matchOpposite =
      matchIncoming store id side limit isMarket quantity (fun store => store.contains id)
        ContiguousStore.matchOpposite := by
  have listed := valid.indexed_side side.opposite
  have same : ∀ ctx,
      matchOpposite side store ctx = ContiguousStore.matchOpposite side store ctx := by
    intro ctx
    rw [matchOpposite, ContiguousStore.matchOpposite, polarity,
      matchAgainst_eq ⟨valid.sides side.opposite, rfl, listed⟩ (room side.opposite)]
  simp only [matchIncoming, same]

theorem rest_eq {price : Price} (adds : more (slotOf price) = 1) (id : OrderId) (side : Side)
    (quantity : Quantity) :
    rest store id side price quantity = store.rest id side price quantity := by
  cases banded : inBand price with
  | false => simp only [rest, ContiguousStore.rest, banded, Bool.not_false, if_true]
  | true =>
    have counted := ((valid.sides side).tidy _ (slotOf_lt banded)).alive_le
    have space := room side (slotOf price)
    rw [Room, AtMost, adds] at space
    have entry : ((store.sideRef side).levels (slotOf price)).orders.length < 2 ^ 32 := by omega
    have more : ((store.sideRef side).levels (slotOf price)).alive + 1 < 2 ^ 32 := by omega
    simp only [rest, ContiguousStore.rest, uint32_eq entry, uint32_eq more]

theorem addLimit_eq (input : LimitInput) (adds : more (slotOf input.price) = 1) :
    addLimit store input = store.addLimit input := by
  have matched : (matchIncoming store input.id input.side input.price false input.quantity
      (fun store => store.contains input.id) ContiguousStore.matchOpposite).1.Valid := by
    rw [matchIncoming]
    split
    · exact valid
    · exact (valid.matchOpposite (by cases input.side <;> rfl)).2.1
  have left := (length_rule _).matchIncoming room input.id input.side input.price false
    input.quantity
  simp only [addLimit, ContiguousStore.addLimit, matchIncoming_eq valid room,
    rest_eq matched left adds]

theorem cancel_eq (id : OrderId) : cancel store id = store.cancel id := by
  rw [cancel, ContiguousStore.cancel]
  cases found : store.index.find? id with
  | none => rfl
  | some loc =>
    obtain ⟨banded, front, flat, back, shape, _, alive, _⟩ :=
      mem_located (valid.indexed.find?.mp found)
    have sound := ((valid.sides loc.side).tidy _ (slotOf_lt banded)).toSound
    have occupied := sound.occupied shape alive
    have erased := @removeResting_eq { store with index := store.index.erase id } loc _ rfl
      (Nat.pos_of_ne_zero occupied) sound.alive_le (room loc.side _).small
    exact congrArg (·, true) erased

theorem modify_eq {newPrice : Price} (adds : more (slotOf newPrice) = 1) (id : OrderId)
    (newQuantity : Quantity) :
    modify store id newPrice newQuantity = store.modify id newPrice newQuantity := by
  have readded := addLimit_eq (valid.cancel id).1 ((length_rule _).cancel room id)
  rw [modify, ContiguousStore.modify, cancel_eq valid room]
  cases store.index.find? id with
  | none => rfl
  | some loc => simp only [readded ⟨id, loc.side, newPrice, newQuantity, .gtc⟩ adds]

end Calls

/-- The entries a call may add at a slot. -/
def adds : BookOp → Nat → Nat
  | .addLimit _ _ price _ _, slot => if slotOf price = slot then 1 else 0
  | .modify _ newPrice _, slot => if slotOf newPrice = slot then 1 else 0
  | _, _ => 0

/-- Before the call every level has fewer than 2^32 entries, the one it may add included. -/
def Fits (store : ContiguousStore) (op : BookOp) : Prop :=
  ∀ side slot, ((store.sideRef side).levels slot).orders.length + adds op slot < 2 ^ 32

/-- Where the counters cannot wrap, a call does what it does with natural numbers. -/
theorem apply_eq {store : ContiguousStore} (valid : store.Valid) {op : BookOp}
    (fits : Fits store op) : apply store op = store.apply op := by
  have room : EveryLevel (Room (adds op)) store := by
    intro side slot
    have space := fits side slot
    rw [Room, AtMost]
    omega
  cases op with
  | addLimit id side price quantity tif =>
    rw [apply, addLimit_eq valid room ⟨id, side, price, quantity, tif⟩ (if_pos rfl)]
    rfl
  | addMarket id side quantity =>
    rw [apply, addMarket, matchIncoming_eq valid room]
    rfl
  | cancel id =>
    rw [apply, cancel_eq valid room]
    rfl
  | modify id newPrice newQuantity =>
    rw [apply, modify_eq valid room (if_pos rfl)]
    rfl

/-- Every call of the run meets levels that have room for it. -/
def FitsAlong (ops : List BookOp) : Prop :=
  ∀ front next, front ++ [next] <+: ops → Fits (drive front).1 next

theorem drive_append (ops : List BookOp) (op : BookOp) :
    drive (ops ++ [op]) = Lockstep.step apply refuses (drive ops) op :=
  Lockstep.drive_append apply refuses empty ops op

/-- Such a run is one with natural numbers for counters. -/
theorem FitsAlong.drive_eq {ops : List BookOp} (fits : FitsAlong ops) :
    drive ops = ContiguousStore.drive ops := by
  induction ops using List.reverseRecOn with
  | nil =>
    rw [drive, ContiguousStore.drive, Lockstep.drive, Lockstep.drive, foldl_nil,
      foldl_nil]
  | append_singleton ops op ih =>
    have earlier := ih (fun front next before => fits front next
      (before.trans (prefix_append ops [op])))
    have valid := (drive_matches ops).store
    have last := fits ops op (prefix_refl _)
    rw [earlier] at last
    rw [drive_append, ContiguousStore.drive_append, earlier, Lockstep.step, Lockstep.step,
      apply_eq valid last]

/-- While every level has fewer than 2^32 entries, contiguous storage refines the baseline book:
the observers agree, an accepted call answers and changes the book as the baseline book does, a call
is refused exactly when the baseline book would rest the order outside the band, and a refused call
changes nothing. -/
theorem drive_refines_fitting (ops : List BookOp) (op : BookOp) (fits : FitsAlong (ops ++ [op])) :
    let store := (drive ops).1
    let baseline := (drive ops).2
    store.observe = baseline.observe ∧
      (store.refuses op = false → (apply store op).2 = (baseline.apply op).2 ∧
        (apply store op).1.observe = (baseline.apply op).1.observe) ∧
      (store.refuses op = true ↔ ∃ order ∈ (baseline.apply op).1.restingOrders,
        order.id = op.id ∧ (order.price < minPrice ∨ maxPrice < order.price)) ∧
      (store.refuses op = true → apply store op = (store, .traded [])) := by
  have earlier : FitsAlong ops := fun front next before =>
    fits front next (before.trans (prefix_append ops [op]))
  have valid := (drive_matches ops).store
  have last := fits ops op (prefix_refl _)
  rw [earlier.drive_eq] at last ⊢
  simp only [apply_eq valid last]
  exact drive_refines ops op

/-- A level never has more entries than there were calls. -/
theorem drive_length (ops : List BookOp) :
    EveryLevel (AtMost (fun _ => ops.length)) (ContiguousStore.drive ops).1 := by
  induction ops using List.reverseRecOn with
  | nil => exact (length_rule _).start
  | append_singleton ops op ih =>
    rw [ContiguousStore.drive_append, length_append]
    refine (length_rule _).apply (fun _ _ short => Nat.le_succ_of_le short) ?_ ih op
    intro slot level order _ short
    change (level.orders ++ [order]).length ≤ ops.length + 1
    rw [length_append]
    exact Nat.succ_le_succ short

theorem fitsAlong_of_short {ops : List BookOp} (short : ops.length < 2 ^ 32) : FitsAlong ops := by
  induction ops using List.reverseRecOn with
  | nil =>
    intro front next before
    simp at before
  | append_singleton ops op ih =>
    rw [length_append, length_singleton] at short
    have earlier := ih (by omega)
    intro front next before
    rcases prefix_concat_iff.mp before with whole | before
    · obtain ⟨rfl, last⟩ := append_inj' whole rfl
      rw [earlier.drive_eq]
      intro side slot
      have entries := drive_length front side slot
      have one : adds next slot ≤ 1 := by
        unfold adds
        split
        · split <;> omega
        · split <;> omega
        · exact Nat.zero_le 1
      rw [AtMost] at entries
      omega
    · exact earlier front next before

theorem drive_refines_fitting_trade :
    let ops := [BookOp.addLimit 7 .buy 100 5 .gtc]
    let op := BookOp.addLimit 8 .sell 100 3 .gtc
    FitsAlong (ops ++ [op]) ∧ (apply (drive ops).1 op).2 = .traded [⟨8, 7, 100, 3⟩] ∧
      (apply (drive ops).1 op).1.observe = ((drive ops).2.apply op).1.observe := by
  intro ops op
  have fits : FitsAlong (ops ++ [op]) := fitsAlong_of_short (by decide)
  exact ⟨fits, by decide +kernel, ((drive_refines_fitting ops op fits).2.1 (by decide +kernel)).2⟩

section Flood

/-- Buys of one unit at one price. -/
def flood (n : Nat) : List BookOp :=
  (List.range n).map (fun i => .addLimit (UInt64.ofNat i) .buy 100 1 .gtc)

def floodBook (n : Nat) : Book :=
  ⟨(List.range n).map (fun i => ⟨UInt64.ofNat i, .buy, 100, 1⟩), []⟩

def floodIndex (n : Nat) : Index :=
  (List.range n).foldl (fun index i => index.insert (UInt64.ofNat i) ⟨.buy, 100, uint32 i⟩) .empty

/-- The store after so many buys: one level of live orders, counted modulo 2^32. -/
def flooded (n : Nat) : ContiguousStore where
  bids := { emptySide.setLevel 99 ⟨(List.range n).map (fun i => ⟨UInt64.ofNat i, 1⟩), 0, uint32 n⟩
    with bits := if n = 0 then emptySide.bits else Bitmap.set emptySide.bits 99 }
  asks := emptySide
  index := floodIndex n

theorem ofNat_ne {i j : Nat} (before : i < j) (small : j < 2 ^ 64) :
    UInt64.ofNat i ≠ UInt64.ofNat j := by
  intro same
  have equal := congrArg UInt64.toNat same
  rw [UInt64.toNat_ofNat_of_lt' (Nat.lt_trans before small),
    UInt64.toNat_ofNat_of_lt' small] at equal
  omega

theorem floodBook_fresh {n id : Nat} (later : n ≤ id) (small : id < 2 ^ 64) :
    (floodBook n).contains (UInt64.ofNat id) = false := by
  rw [Book.contains_false_iff]
  intro side order member same
  cases side with
  | buy =>
    obtain ⟨i, inside, rfl⟩ := mem_map.mp member
    exact ofNat_ne (Nat.lt_of_lt_of_le (mem_range.mp inside) later) small same
  | sell => cases member

theorem flooded_fresh {n id : Nat} (later : n ≤ id) (small : id < 2 ^ 64) :
    (flooded n).contains (UInt64.ofNat id) = false := by
  change (floodIndex n).contains (UInt64.ofNat id) = false
  induction n with
  | zero => rfl
  | succ n ih =>
    rw [floodIndex, range_succ, foldl_append, foldl_cons, foldl_nil,
      OrderedMap.contains, OrderedMap.find?_insert, if_neg (ofNat_ne later small).symm]
    exact ih (Nat.le_of_succ_le later)

theorem floodBook_succ {n : Nat} (small : n < 2 ^ 64) :
    (floodBook n).addLimit (UInt64.ofNat n) .buy 100 1 .gtc = (floodBook (n + 1), []) := by
  have last : (floodBook n).rest ⟨UInt64.ofNat n, .buy, 100, 1⟩ = floodBook (n + 1) := by
    have behind : ∀ order ∈ (floodBook n).bids, (!decide (Better .buy 100 order.price)) = true := by
      intro order member
      obtain ⟨i, _, rfl⟩ := mem_map.mp member
      rfl
    rw [Book.rest, orderedInsert_eq_take_drop]
    simp only [Book.side, Book.setSide, decide_not, takeWhile_eq_self_iff.mpr behind,
      dropWhile_eq_nil_iff.mpr behind]
    rw [floodBook, floodBook, range_succ, map_append]
    rfl
  rw [Book.addLimit, floodBook_fresh (Nat.le_refl n) small, ← last]
  rfl

/-- A buy finds nothing to match and rests behind the others. -/
theorem flooded_succ {n : Nat} (small : n < 2 ^ 32) :
    (addLimit (flooded n) ⟨UInt64.ofNat n, .buy, 100, 1, .gtc⟩).1 = flooded (n + 1) := by
  have storable : (flooded n).canStoreLimit .buy 100 1 .gtc = true := if_pos (Or.inr rfl)
  have unmatched : ∀ ctx, matchOpposite .buy (flooded n) ctx = (flooded n, ctx) := by
    intro ctx
    have stopped : matchAgainstStep false ⟨emptySide, floodIndex n, ctx⟩ = none := by
      have none : bestSlot emptySide false = none := rfl
      simp only [matchAgainstStep, none, ite_self]
    have idle := WhileLoop.run_stop _ (bandWidth + 1) _ stopped
    exact congrArg (fun walk : Walk =>
      (ContiguousStore.mk (flooded n).bids walk.opposite walk.index, walk.ctx)) idle
  have rested : (addLimit (flooded n) ⟨UInt64.ofNat n, .buy, 100, 1, .gtc⟩).1 =
      (rest (flooded n) (UInt64.ofNat n) .buy 100 1).1 := by
    simp only [addLimit, storable, matchIncoming, unmatched,
      flooded_fresh (Nat.le_refl n) (Nat.lt_trans small (by decide))]
    rfl
  have levels : ∀ level level' bits,
      (BookSide.setLevel ⟨(emptySide.setLevel 99 level).levels, bits⟩ 99 level').levels =
        (emptySide.setLevel 99 level').levels := by
    intro level level' bits
    funext slot
    simp only [BookSide.setLevel]
    split <;> rfl
  have banded : inBand 100 = true := rfl
  have place : slotOf 100 = 99 := rfl
  rw [rested]
  simp only [rest, sideRef, setSideRef, banded, place, flooded, Bool.not_true, Bool.false_eq_true,
    if_false, setLevel_same, length_map, length_range, levels, uint32_eq small,
    range_succ, map_append, map_cons, map_nil, floodIndex, foldl_append,
    foldl_cons, foldl_nil, Nat.succ_ne_zero]
  by_cases zero : n = 0 <;> simp only [zero, if_true, if_false]

/-- A level whose counter is zero is dropped without a trade. -/
theorem flooded_sell {n : Nat} (nonempty : n ≠ 0) (full : uint32 n = 0) {id : OrderId}
    (fresh : (flooded n).contains id = false) :
    (addLimit (flooded n) ⟨id, .sell, 100, 1, .gtc⟩).2 = [] := by
  have storable : (flooded n).canStoreLimit .sell 100 1 .gtc = true := if_pos (Or.inr rfl)
  let level : FlatLevel := ⟨(List.range n).map (fun i => ⟨UInt64.ofNat i, 1⟩), 0, 0⟩
  let start : Walk := ⟨⟨(emptySide.setLevel 99 level).levels, Bitmap.set emptySide.bits 99⟩,
    floodIndex n, ⟨id, false, 100, false, 1, []⟩⟩
  let cleared : Walk := { start with opposite := clearLevel start.opposite 99 }
  -- the bit is set but `alive` is 0: no fill, and the empty-level branch clears it
  have dropped : matchAgainstStep true start = some cleared := by
    have positive : start.ctx.quantity ≠ 0 := (by decide : (1 : Quantity) ≠ 0)
    have best : bestSlot start.opposite true = some 99 :=
      (by decide : Bitmap.nextDown (Bitmap.set emptySide.bits 99) (bandWidth - 1) = some 99)
    have crossing : canMatchLevel start.ctx.takerIsBuy start.ctx.isMarket start.ctx.limit
        (priceOf 99) = true := rfl
    have idle : (start.opposite.levels 99).alive = 0 := rfl
    have filled : fillLevel (start.opposite.levels 99) (priceOf 99) start.index start.ctx =
        ⟨start.opposite.levels 99, start.index, start.ctx⟩ :=
      WhileLoop.run_stop _ _ _ (if_neg (fun guard => Nat.lt_irrefl 0 guard.2))
    simp only [matchAgainstStep, if_neg positive, best, crossing, Bool.not_true,
      Bool.false_eq_true, if_false, filled, idle, if_true, setLevel_self]
    rfl
  have ended : matchAgainstStep true cleared = none := by
    have none : bestSlot cleared.opposite true = none := (by decide : Bitmap.nextDown
      (Bitmap.clear (Bitmap.set emptySide.bits 99) 99) (bandWidth - 1) = none)
    simp only [matchAgainstStep, none, ite_self]
  have matched : (matchOpposite .sell (flooded n) start.ctx).2 = cleared.ctx := by
    have bids : (flooded n).bids = start.opposite := by
      rw [flooded, full, if_neg nonempty]
    have swept := (WhileLoop.run_step _ bandWidth _ _ dropped).trans
      (WhileLoop.run_stop _ bandWidth _ ended)
    rw [matchOpposite, matchAgainst]
    simp only [Side.opposite, sideRef, bids]
    exact congrArg Walk.ctx swept
  simp only [addLimit, storable, matchIncoming, fresh, Bool.not_true, Bool.false_eq_true, if_false]
  split <;> exact congrArg MatchContext.trades matched

/-- Of any buys at its price a sell trades with the first. -/
theorem floodBook_sell {n id : Nat} (later : n + 1 ≤ id) (small : id < 2 ^ 64) :
    ((floodBook (n + 1)).addLimit (UInt64.ofNat id) .sell 100 1 .gtc).2 =
      [⟨UInt64.ofNat id, 0, 100, 1⟩] := by
  let taker : Taker := ⟨UInt64.ofNat id, .sell, 100, false⟩
  let maker : Order := ⟨0, .buy, 100, 1⟩
  let others : List Order := (List.range n).map (fun i => ⟨UInt64.ofNat (i + 1), .buy, 100, 1⟩)
  have trades : ((floodBook (n + 1)).matchTaker taker 1).trades =
      [⟨UInt64.ofNat id, 0, 100, 1⟩] := by
    have shape : (floodBook (n + 1)).side taker.side.opposite = maker :: others := by
      change (List.range (n + 1)).map _ = _
      rw [range_succ_eq_map, map_cons, map_map]
      rfl
    have used : (1 : Quantity) - min 1 maker.quantity = 0 := by decide
    rw [Book.matchTaker, shape, (sweep_cons taker others (by decide : (1 : Quantity) ≠ 0)
      (rfl : taker.crosses maker.price = true)).1, used, sweep_zero]
    rfl
  rw [Book.addLimit, floodBook_fresh later small]
  simp only [Bool.false_eq_true, if_false]
  split <;> exact trades

theorem refuses_banded (store : ContiguousStore) (id : OrderId) (side : Side) {price : Price}
    (quantity : Quantity) (tif : TimeInForce) (banded : inBand price = true) :
    store.refuses (.addLimit id side price quantity tif) = false := by
  simp [refuses, canStoreLimit, banded]

theorem drive_flood {n : Nat} (small : n ≤ 2 ^ 32) :
    (drive (flood n)).1 = flooded n ∧ (drive (flood n)).2.Valid ∧
      (drive (flood n)).2.view = floodBook n := by
  induction n with
  | zero =>
    have vacant : emptySide.setLevel 99 ⟨[], 0, 0⟩ = emptySide := setLevel_self emptySide 99
    refine ⟨?_, BaselineStore.valid_empty, rfl⟩
    change empty = ⟨⟨(emptySide.setLevel 99 ⟨[], 0, 0⟩).levels, emptySide.bits⟩, emptySide, .empty⟩
    rw [vacant]
    rfl
  | succ n ih =>
    obtain ⟨store, valid, view⟩ := ih (Nat.le_of_succ_le small)
    have shape : flood (n + 1) = flood n ++ [.addLimit (UInt64.ofNat n) .buy 100 1 .gtc] := by
      rw [flood, range_succ, map_append]
      rfl
    obtain ⟨kept, after, -⟩ := valid.apply (.addLimit (UInt64.ofNat n) .buy 100 1 .gtc)
    rw [view, Book.apply, floodBook_succ (by omega)] at after
    rw [shape, drive_append, Lockstep.step, store, refuses_banded _ _ _ _ _ rfl,
      if_neg Bool.false_ne_true]
    exact ⟨flooded_succ small, kept, after⟩

/-- A sell meets 2^32 buys at its price: the baseline book trades with the first of them, the
contiguous book drops them all. -/
theorem drive_drops_level :
    let op := BookOp.addLimit (UInt64.ofNat (2 ^ 32)) .sell 100 1 .gtc
    let books := drive (flood (2 ^ 32))
    books.1.refuses op = false ∧ (apply books.1 op).2 = .traded [] ∧
      (books.2.apply op).2 = .traded [⟨UInt64.ofNat (2 ^ 32), 0, 100, 1⟩] := by
  obtain ⟨n, full⟩ : ∃ n, n + 1 = 2 ^ 32 := ⟨2 ^ 32 - 1, rfl⟩
  rw [← full]
  intro op books
  obtain ⟨store, valid, view⟩ := drive_flood (n := n + 1) (by omega)
  refine ⟨refuses_banded _ _ _ _ _ rfl, ?_, ?_⟩
  · rw [show books.1 = flooded (n + 1) from store]
    exact congrArg BookReply.traded (flooded_sell (n := n + 1) (Nat.succ_ne_zero n)
      (by rw [full]; rfl) (flooded_fresh (Nat.le_refl _) (by omega)))
  · have answer := (valid.apply op).answer
    rw [view] at answer
    exact answer.trans (congrArg BookReply.traded (floodBook_sell (Nat.le_refl _) (by omega)))

end Flood

end Qsl.ContiguousStore.Wrapping
