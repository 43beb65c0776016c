import Qsl.GreedyReduction
import Qsl.Renumber
import Mathlib.Order.RelClasses

namespace Qsl

open List
open GreedyReduction

variable {command : Command}

namespace Command

def withMinQty : Command → Command
  | .newLimit symbol id side price _ tif => .newLimit symbol id side price 1 tif
  | .newMarket symbol id side _ => .newMarket symbol id side 1
  | .modify symbol id price _ => .modify symbol id price 1
  | command => command

/-- Market orders carry no price. -/
def withMinPrice : Command → Command
  | .newLimit symbol id side _ quantity tif => .newLimit symbol id side 1 quantity tif
  | .modify symbol id _ quantity => .modify symbol id 1 quantity
  | command => command

end Command

/-- The commands without those from `i` to `i + n`. -/
def without (commands : List Command) (i n : Nat) : List Command :=
  commands.take i ++ commands.drop (i + n)

/-- A predicate that tells the streams to look for. -/
abbrev ShrinkPredicate : Type := List Command → Bool

variable (fails : ShrinkPredicate)

/-- The state of the loop over the chunks of one size. -/
structure ChunkLoop where
  cur : List Command
  changed : Bool
  i : Nat

/-- One iteration: after a removal the next chunk begins where the last one did. -/
def tryRemoveChunk (chunkSize : Nat) (loop : ChunkLoop) : Option ChunkLoop :=
  if loop.i + chunkSize ≤ loop.cur.length then
    if fails (without loop.cur loop.i chunkSize) then
      some ⟨without loop.cur loop.i chunkSize, true, loop.i⟩
    else some ⟨loop.cur, loop.changed, loop.i + chunkSize⟩
  else none

def tryRemoveChunksOfSize (chunkSize : Nat) : Reduction (List Command) := fun cur =>
  let final := WhileLoop.run (tryRemoveChunk fails chunkSize) (cur.length + 1) ⟨cur, false, 0⟩
  (final.cur, final.changed)

/-- The loop that halves the size of the chunks. -/
def removeChunks (n : Nat) : Reduction (List Command) :=
  if 1 < n then andThen (tryRemoveChunksOfSize fails n) (removeChunks (n / 2))
  else fun cur => (cur, false)

def removeMultiCommandChunks : Reduction (List Command) := fun cur =>
  removeChunks fails (if 1 < cur.length then cur.length / 2 else 1) cur

def removeSingleCommands : Reduction (List Command) := tryRemoveChunksOfSize fails 1

def removeContiguousRanges : Reduction (List Command) :=
  andThen (removeMultiCommandChunks fails) (removeSingleCommands fails)

/-- The stream with one command simplified, if that changes it. -/
def simplifyAt (simplify : Command → Command) (i : Nat) (cur : List Command) :
    Option (List Command) :=
  match cur[i]? with
  | none => none
  | some command => if simplify command ≠ command then some (cur.set i (simplify command)) else none

def simplifyFields (simplify : Command → Command) : Reduction (List Command) := fun cur =>
  sequence ((List.range cur.length).map fun i => attempt fails (simplifyAt simplify i)) cur

def simplifyQuantities : Reduction (List Command) := simplifyFields fails Command.withMinQty

def simplifyPrices : Reduction (List Command) := simplifyFields fails Command.withMinPrice

/-- The renumbered stream, if it differs. -/
def renumbered (cur : List Command) : Option (List Command) :=
  if renumber cur ≠ cur then some (renumber cur) else none

def renumberSymbolsAndOrders : Reduction (List Command) := attempt fails renumbered

def runReductionPass : Reduction (List Command) :=
  andThen (andThen (andThen (removeContiguousRanges fails) (simplifyQuantities fails))
    (simplifyPrices fails)) (renumberSymbolsAndOrders fails)

/-- What a pass that changes the stream brings down: the commands, the quantities and the prices
other than 1, and whether renumbering would change the stream. -/
def shrinkMeasure (commands : List Command) : Nat × Nat × Nat × Nat :=
  (commands.length, (commands.filterMap Command.quantity?).countP (· ≠ 1),
    (commands.filterMap Command.price?).countP (· ≠ 1),
    if renumber commands = commands then 0 else 1)

/-- The lexicographic order of the measures. -/
def Smaller (next cur : List Command) : Prop :=
  Prod.Lex (· < ·) (Prod.Lex (· < ·) (Prod.Lex (· < ·) (· < ·))) (shrinkMeasure next)
    (shrinkMeasure cur)

instance smallerTrans : IsTrans (List Command) Smaller :=
  ⟨fun _ _ _ less more => trans_of (Prod.Lex _ _) less more⟩

theorem smaller_wellFounded : WellFounded Smaller :=
  InvImage.wf shrinkMeasure (Prod.instWellFoundedRelation).wf

variable {fails}

theorem smaller_of_length {next cur : List Command} (shorter : next.length < cur.length) :
    Smaller next cur :=
  Prod.Lex.left _ _ shorter

theorem Smaller.length_le {next cur : List Command} (smaller : Smaller next cur) :
    next.length ≤ cur.length := by
  rcases Prod.lex_def.mp smaller with shorter | ⟨same, -⟩
  · exact Nat.le_of_lt shorter
  · exact Nat.le_of_eq same

section Removal

variable {cur : List Command} {i n : Nat}

theorem without_length (inside : i + n ≤ cur.length) :
    (without cur i n).length = cur.length - n := by
  rw [without, length_append, length_take, length_drop]
  omega

theorem without_one (cur : List Command) (i : Nat) : without cur i 1 = cur.eraseIdx i :=
  (eraseIdx_eq_take_drop_succ cur i).symm

/-- As long as nothing is removed, every chunk passed was needed. -/
structure Chunked (fails : ShrinkPredicate) (n : Nat) (start : List Command) (loop : ChunkLoop) :
    Prop where
  failing : fails start = true → fails loop.cur = true
  idle : loop.changed = false →
    loop.cur = start ∧ (n = 1 → ∀ i < loop.i, fails (start.eraseIdx i) = false)
  falls : loop.changed = true → loop.cur.length < start.length

theorem Chunked.step {start : List Command} {loop next : ChunkLoop} (positive : 0 < n)
    (taken : tryRemoveChunk fails n loop = some next) (chunked : Chunked fails n start loop) :
    Chunked fails n start next := by
  unfold tryRemoveChunk at taken
  split at taken
  · rename_i inside
    split at taken <;> cases taken
    · rename_i failing
      refine ⟨fun _ => failing, fun unchanged => Bool.noConfusion unchanged, ?_⟩
      intro _
      have before : loop.cur.length ≤ start.length := by
        cases flag : loop.changed with
        | false => rw [(chunked.idle flag).1]
        | true => exact Nat.le_of_lt (chunked.falls flag)
      have after := without_length inside
      dsimp only
      omega
    · rename_i passing
      refine ⟨chunked.failing, ?_, chunked.falls⟩
      intro unchanged
      obtain ⟨same, needed⟩ := chunked.idle unchanged
      refine ⟨same, ?_⟩
      rintro rfl j before
      rcases Nat.lt_succ_iff_lt_or_eq.mp before with earlier | rfl
      · exact needed rfl j earlier
      · rw [without_one, same] at passing
        exact Bool.eq_false_of_not_eq_true passing
  · cases taken

theorem tryRemoveChunk_falls (positive : 0 < n) (loop next : ChunkLoop)
    (taken : tryRemoveChunk fails n loop = some next) :
    next.cur.length - next.i < loop.cur.length - loop.i := by
  unfold tryRemoveChunk at taken
  split at taken
  · rename_i inside
    have shorter := without_length inside
    split at taken <;> cases taken <;> dsimp only <;> omega
  · cases taken

theorem tryRemoveChunks_chunked (positive : 0 < n) (cur : List Command) :
    Chunked fails n cur
      (WhileLoop.run (tryRemoveChunk fails n) (cur.length + 1) ⟨cur, false, 0⟩) := by
  apply WhileLoop.run_invariant _ (fun loop next taken chunked => chunked.step positive taken)
  exact ⟨id, fun _ => ⟨rfl, fun _ i impossible => absurd impossible (Nat.not_lt_zero i)⟩,
    fun impossible => by cases impossible⟩

theorem sound_tryRemoveChunks (positive : 0 < n) :
    Sound fails Smaller (tryRemoveChunksOfSize fails n) where
  fails := fun cur => (tryRemoveChunks_chunked positive cur).failing
  idle := fun cur idle => ((tryRemoveChunks_chunked positive cur).idle idle).1
  falls := fun cur changed =>
    smaller_of_length ((tryRemoveChunks_chunked positive cur).falls changed)

/-- A stream that the last loop leaves alone needs each of its commands. -/
theorem removeSingleCommands_idle (idle : (removeSingleCommands fails cur).2 = false)
    (inside : i < cur.length) : fails (cur.eraseIdx i) = false := by
  obtain ⟨same, needed⟩ := (@tryRemoveChunks_chunked fails 1 (by decide) cur).idle idle
  have ended := @WhileLoop.run_ends _ (tryRemoveChunk fails 1)
    (fun loop => loop.cur.length - loop.i) (tryRemoveChunk_falls (by decide)) ⟨cur, false, 0⟩
    (cur.length + 1) (Nat.lt_succ_self _)
  unfold tryRemoveChunk at ended
  split at ended
  · split at ended <;> cases ended
  · rename_i past
    change ¬ (WhileLoop.run (tryRemoveChunk fails 1) _ _).i + 1 ≤
      (WhileLoop.run (tryRemoveChunk fails 1) _ _).cur.length at past
    rw [same] at past
    exact needed rfl i (by omega)

theorem sound_removeChunks (n : Nat) : Sound fails Smaller (removeChunks fails n) := by
  induction n using Nat.strongRecOn with
  | ind n ih =>
    rw [removeChunks]
    split
    · rename_i several
      exact (sound_tryRemoveChunks (by omega)).andThen (ih (n / 2) (by omega))
    · exact sound_idle

theorem sound_removeMultiCommandChunks : Sound fails Smaller (removeMultiCommandChunks fails) where
  fails := fun cur => (sound_removeChunks _).fails cur
  idle := fun cur => (sound_removeChunks _).idle cur
  falls := fun cur => (sound_removeChunks _).falls cur

theorem sound_removeContiguousRanges : Sound fails Smaller (removeContiguousRanges fails) :=
  sound_removeMultiCommandChunks.andThen (sound_tryRemoveChunks (by decide))

end Removal

section Fields

variable {cur next : List Command} {i : Nat}

/-- A simplification changes one command and leaves those around it. -/
theorem simplifyAt_split {simplify : Command → Command}
    (found : simplifyAt simplify i cur = some next) :
    ∃ front command back, simplify command ≠ command ∧ cur = front ++ command :: back ∧
      next = front ++ simplify command :: back := by
  unfold simplifyAt at found
  split at found
  · cases found
  · rename_i command here
    split at found
    · rename_i differ
      cases found
      obtain ⟨inside, rfl⟩ := List.getElem?_eq_some_iff.mp here
      refine ⟨cur.take i, cur[i], cur.drop (i + 1), differ, ?_, ?_⟩
      · simp
      · rw [set_eq_take_append_cons_drop, if_pos inside]
    · cases found

theorem Command.withMinQty_field (differ : command.withMinQty ≠ command) :
    ∃ quantity, command.quantity? = some quantity ∧ quantity ≠ 1 ∧
      command.withMinQty.quantity? = some 1 := by
  cases command with
  | registerSymbol _ | cancel _ _ => exact absurd rfl differ
  | newLimit _ _ _ _ quantity _ | newMarket _ _ _ quantity | modify _ _ _ quantity =>
    refine ⟨quantity, rfl, ?_, rfl⟩
    rintro rfl
    exact differ rfl

theorem Command.withMinPrice_field (differ : command.withMinPrice ≠ command) :
    ∃ price, command.price? = some price ∧ price ≠ 1 ∧ command.withMinPrice.price? = some 1 := by
  cases command with
  | registerSymbol _ | newMarket _ _ _ _ | cancel _ _ => exact absurd rfl differ
  | newLimit _ _ _ price _ _ | modify _ _ price _ =>
    refine ⟨price, rfl, ?_, rfl⟩
    rintro rfl
    exact differ rfl

theorem Command.withMinPrice_quantity? (command : Command) :
    command.withMinPrice.quantity? = command.quantity? := by
  cases command <;> rfl

theorem withMinQty_smaller (found : simplifyAt Command.withMinQty i cur = some next) :
    Smaller next cur := by
  obtain ⟨front, command, back, differ, rfl, rfl⟩ := simplifyAt_split found
  obtain ⟨quantity, given, other, one⟩ := Command.withMinQty_field differ
  refine Prod.lex_def.mpr (.inr ⟨?_, Prod.lex_def.mpr (.inl ?_)⟩)
  · simp [shrinkMeasure]
  · simp [shrinkMeasure, given, one, other]

theorem withMinPrice_smaller (found : simplifyAt Command.withMinPrice i cur = some next) :
    Smaller next cur := by
  obtain ⟨front, command, back, differ, rfl, rfl⟩ := simplifyAt_split found
  obtain ⟨price, given, other, one⟩ := Command.withMinPrice_field differ
  refine Prod.lex_def.mpr (.inr ⟨?_, Prod.lex_def.mpr (.inr ⟨?_, Prod.lex_def.mpr (.inl ?_)⟩)⟩)
  · simp [shrinkMeasure]
  · simp [shrinkMeasure, filterMap_cons, command.withMinPrice_quantity?]
  · simp [shrinkMeasure, given, one, other]

theorem renumbered_smaller (found : renumbered cur = some next) : Smaller next cur := by
  unfold renumbered at found
  split at found
  · rename_i differ
    cases found
    rcases Nat.lt_or_eq_of_le (renumber_length cur) with shorter | same
    · exact smaller_of_length shorter
    · have before : shrinkMeasure cur =
          (cur.length, (cur.filterMap Command.quantity?).countP (· ≠ 1),
            (cur.filterMap Command.price?).countP (· ≠ 1), 1) := by
        rw [shrinkMeasure, if_neg differ]
      have after : shrinkMeasure (renumber cur) =
          (cur.length, (cur.filterMap Command.quantity?).countP (· ≠ 1),
            (cur.filterMap Command.price?).countP (· ≠ 1), 0) := by
        rw [shrinkMeasure, if_pos (renumber_idempotent cur), renumber_quantities, renumber_prices,
          same]
      rw [Smaller, before, after]
      exact Prod.Lex.right _ (Prod.Lex.right _ (Prod.Lex.right _ Nat.zero_lt_one))
  · cases found

variable {simplify : Command → Command}

theorem sound_simplifyFields
    (lower : ∀ i cur next, simplifyAt simplify i cur = some next → Smaller next cur) :
    Sound fails Smaller (simplifyFields fails simplify) := by
  have steps : ∀ cur : List Command, ∀ step ∈ (List.range cur.length).map fun i =>
      attempt fails (simplifyAt simplify i), Sound fails Smaller step := by
    intro cur step listed
    obtain ⟨i, -, rfl⟩ := mem_map.mp listed
    exact sound_attempt (lower i)
  exact ⟨fun cur => (Sound.sequence (steps cur)).fails cur,
    fun cur => (Sound.sequence (steps cur)).idle cur,
    fun cur => (Sound.sequence (steps cur)).falls cur⟩

theorem simplifyFields_idle
    (lower : ∀ i cur next, simplifyAt simplify i cur = some next → Smaller next cur)
    (idle : (simplifyFields fails simplify cur).2 = false) (here : cur[i]? = some command)
    (differ : simplify command ≠ command) : fails (cur.set i (simplify command)) = false := by
  obtain ⟨inside, -⟩ := List.getElem?_eq_some_iff.mp here
  have still : (attempt fails (simplifyAt simplify i) cur).2 = false := by
    refine @sequence_idle _ fails Smaller _ _ ?_ idle _
      (mem_map_of_mem (mem_range.mpr inside))
    intro step listed
    obtain ⟨j, -, rfl⟩ := mem_map.mp listed
    exact sound_attempt (lower j)
  apply attempt_idle still
  rw [simplifyAt, here]
  exact if_pos differ

end Fields

theorem sound_runReductionPass (fails : ShrinkPredicate) :
    Sound fails Smaller (runReductionPass fails) :=
  ((sound_removeContiguousRanges.andThen
    (sound_simplifyFields fun _ _ _ => withMinQty_smaller)).andThen
    (sound_simplifyFields fun _ _ _ => withMinPrice_smaller)).andThen
    (sound_attempt fun _ _ => renumbered_smaller)

/-- The loop to the fixed point, which counts its passes. -/
def shrinkLoop (fails : ShrinkPredicate) (cur : List Command) (count : Nat) :
    List Command × Nat :=
  if (runReductionPass fails cur).2 then
    shrinkLoop fails (runReductionPass fails cur).1 (count + 1)
  else ((runReductionPass fails cur).1, count + 1)
termination_by shrinkMeasure cur
decreasing_by
  rename_i changed
  exact (sound_runReductionPass fails).falls cur changed

/-- The reduced stream and the number of passes. -/
def shrink (commands : List Command) (fails : ShrinkPredicate) : List Command × Nat :=
  if !fails commands then (commands, 0) else shrinkLoop fails commands 0

section Loop

variable {cur : List Command}

/-- The loop makes as many passes as change the stream and one more. -/
theorem shrinkLoop_passes {passed : Nat}
    (busy : ∀ earlier < passed,
      (runReductionPass fails (passes (runReductionPass fails) earlier cur)).2 = true)
    (idle : (runReductionPass fails (passes (runReductionPass fails) passed cur)).2 = false)
    (count : Nat) :
    shrinkLoop fails cur count =
      (passes (runReductionPass fails) passed cur, count + passed + 1) := by
  induction passed generalizing cur count with
  | zero =>
    have unchanged : (runReductionPass fails cur).2 = false := idle
    rw [shrinkLoop, unchanged, if_neg Bool.false_ne_true,
      (sound_runReductionPass fails).idle cur unchanged]
    rfl
  | succ passed ih =>
    have changed : (runReductionPass fails cur).2 = true := busy 0 (Nat.succ_pos passed)
    rw [shrinkLoop, if_pos changed, ih (fun earlier before => busy (earlier + 1)
      (Nat.succ_lt_succ before)) idle, Nat.add_right_comm count 1 passed, Nat.add_assoc count]
    rfl

/-- Passes keep the failure and never lengthen the stream. -/
theorem passes_kept (count : Nat) (failing : fails cur = true) :
    fails (passes (runReductionPass fails) count cur) = true ∧
      (passes (runReductionPass fails) count cur).length ≤ cur.length := by
  induction count generalizing cur with
  | zero => exact ⟨failing, Nat.le_refl _⟩
  | succ count ih =>
    have sound := sound_runReductionPass fails
    obtain ⟨kept, short⟩ := ih (sound.fails cur failing)
    have once : (runReductionPass fails cur).1.length ≤ cur.length := by
      cases changed : (runReductionPass fails cur).2 with
      | false => rw [sound.idle cur changed]
      | true => exact (sound.falls cur changed).length_le
    exact ⟨kept, Nat.le_trans short once⟩

end Loop

/-- A stream for which no single simplification fails any more. -/
structure OneMinimal (fails : ShrinkPredicate) (commands : List Command) : Prop where
  removal : ∀ i < commands.length, fails (commands.eraseIdx i) = false
  quantity : ∀ i command, commands[i]? = some command → command.withMinQty ≠ command →
    fails (commands.set i command.withMinQty) = false
  price : ∀ i command, commands[i]? = some command → command.withMinPrice ≠ command →
    fails (commands.set i command.withMinPrice) = false
  numbering : renumber commands ≠ commands → fails (renumber commands) = false

/-- A pass that changes nothing has tried all of them. -/
theorem oneMinimal_of_idle {cur : List Command} (idle : (runReductionPass fails cur).2 = false) :
    OneMinimal fails cur := by
  have removal := @sound_removeContiguousRanges fails
  have quantities : Sound fails Smaller (simplifyQuantities fails) :=
    sound_simplifyFields fun _ _ _ => withMinQty_smaller
  have prices : Sound fails Smaller (simplifyPrices fails) :=
    sound_simplifyFields fun _ _ _ => withMinPrice_smaller
  obtain ⟨fields, numbered⟩ := andThen_idle ((removal.andThen quantities).andThen prices) idle
  obtain ⟨front, priced⟩ := andThen_idle (removal.andThen quantities) fields
  obtain ⟨removed, sized⟩ := andThen_idle removal front
  refine ⟨fun i inside => ?_, fun i command => ?_, fun i command => ?_, fun differ => ?_⟩
  · exact removeSingleCommands_idle (andThen_idle sound_removeMultiCommandChunks removed).2 inside
  · exact simplifyFields_idle (fun _ _ _ => withMinQty_smaller) sized
  · exact simplifyFields_idle (fun _ _ _ => withMinPrice_smaller) priced
  · exact attempt_idle numbered _ (if_pos differ)

/-- The loop ends: every pass that reports a change goes down in the lexicographic measure, for
which renumbering is idempotent and touches neither length upwards nor quantities nor prices. -/
theorem shrink_ends (fails : ShrinkPredicate) (commands : List Command) :
    (∀ cur, (runReductionPass fails cur).2 = true → Smaller (runReductionPass fails cur).1 cur) ∧
    (∃ passed, (∀ earlier < passed,
        (runReductionPass fails (passes (runReductionPass fails) earlier commands)).2 = true) ∧
      (runReductionPass fails (passes (runReductionPass fails) passed commands)).2 = false ∧
      shrinkLoop fails commands 0 =
        (passes (runReductionPass fails) passed commands, passed + 1)) ∧
    ∀ cur, renumber (renumber cur) = renumber cur ∧ (renumber cur).length ≤ cur.length ∧
      (renumber cur).filterMap Command.quantity? = cur.filterMap Command.quantity? ∧
      (renumber cur).filterMap Command.price? = cur.filterMap Command.price? := by
  have sound := sound_runReductionPass fails
  refine ⟨sound.falls, ?_, fun cur => ⟨renumber_idempotent cur, renumber_length cur,
    renumber_quantities cur, renumber_prices cur⟩⟩
  obtain ⟨passed, busy, idle⟩ := sound.ends smaller_wellFounded commands
  have ran := shrinkLoop_passes busy idle 0
  rw [Nat.zero_add] at ran
  exact ⟨passed, busy, idle, ran⟩

/-- What `shrink` returns: the input if it does not fail, else a stream that fails, is no longer
and is minimal under each single simplification. -/
theorem shrink_minimal (fails : ShrinkPredicate) (commands : List Command) :
    (fails commands = false → (shrink commands fails).1 = commands) ∧
    (fails commands = true →
      fails (shrink commands fails).1 = true ∧
      (shrink commands fails).1.length ≤ commands.length ∧
      OneMinimal fails (shrink commands fails).1) := by
  constructor
  · intro passing
    rw [shrink, passing]
    rfl
  · intro failing
    obtain ⟨passed, busy, idle⟩ :=
      (sound_runReductionPass fails).ends smaller_wellFounded commands
    obtain ⟨kept, short⟩ := @passes_kept fails commands passed failing
    rw [shrink, failing, Bool.not_true, if_neg Bool.false_ne_true, shrinkLoop_passes busy idle]
    exact ⟨kept, short, oneMinimal_of_idle idle⟩

end Qsl
