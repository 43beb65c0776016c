import Qsl.Machine
import Mathlib.Data.List.Induction
import Mathlib.Logic.Function.Basic

/- Streams of frames that arrive in chunks. A reader looks at what has arrived and waits, gives
up, or says where the first frame ends; some frames end the stream themselves. -/
namespace Reassembly

open List

inductive Front where
  | wait
  | bad
  | frame (size : Nat)
  deriving DecidableEq, Repr

/-- The frames read off the front, what is left over, and whether the stream ended there. -/
structure Parse (β : Type) where
  frames : List (List β)
  rest : List β
  closed : Bool
  deriving DecidableEq, Repr

section Decompose

variable {β : Type} (front : List β → Front) (closes : List β → Bool)

/-- A reader that settles on the frame itself, whatever comes after, and does not come back
once it gave up. -/
structure Reads : Prop where
  idle : front [] = .wait
  within : ∀ bytes size, front bytes = .frame size → 0 < size ∧ size ≤ bytes.length
  framed : ∀ bytes size, front bytes = .frame size →
    ∀ more, front (bytes.take size ++ more) = .frame size
  stuck : ∀ bytes, front bytes = .bad → ∀ more, front (bytes ++ more) = .bad

def parse : Nat → List β → Parse β
  | 0, bytes => ⟨[], bytes, false⟩
  | bound + 1, bytes =>
    match front bytes with
    | .wait => ⟨[], bytes, false⟩
    | .bad => ⟨[], bytes, true⟩
    | .frame size =>
      let first := bytes.take size
      if closes first then ⟨[first], bytes.drop size, true⟩
      else
        let later := parse bound (bytes.drop size)
        { later with frames := first :: later.frames }

/-- The whole frames of what has arrived, up to the end of the stream. -/
def decompose (bytes : List β) : Parse β := parse front closes (bytes.length + 1) bytes

variable {front} {closes} (reads : Reads front)

include reads

/-- Every frame takes something, so the length bounds the walk. -/
theorem parse_enough {bound : Nat} {bytes : List β} (enough : bytes.length < bound) :
    parse front closes bound bytes = decompose front closes bytes := by
  induction bound using Nat.strongRecOn generalizing bytes with
  | ind bound ih =>
    obtain _ | bound := bound
    · omega
    rw [decompose, parse, parse]
    cases read : front bytes with
    | wait => rfl
    | bad => rfl
    | frame size =>
      obtain ⟨positive, within⟩ := reads.within bytes size read
      have shorter : (bytes.drop size).length < bytes.length := by
        rw [length_drop]
        omega
      simp only
      rw [ih bound (Nat.lt_succ_self bound) (by omega), ih bytes.length (by omega) shorter]

theorem decompose_eq (bytes : List β) :
    decompose front closes bytes =
      match front bytes with
      | .wait => ⟨[], bytes, false⟩
      | .bad => ⟨[], bytes, true⟩
      | .frame size =>
        if closes (bytes.take size) then ⟨[bytes.take size], bytes.drop size, true⟩
        else
          { decompose front closes (bytes.drop size) with
            frames := bytes.take size :: (decompose front closes (bytes.drop size)).frames } := by
  rw [decompose, parse]
  cases read : front bytes with
  | wait => rfl
  | bad => rfl
  | frame size =>
    obtain ⟨positive, within⟩ := reads.within bytes size read
    have shorter : (bytes.drop size).length < bytes.length := by
      rw [length_drop]
      omega
    simp only
    rw [parse_enough reads shorter]

theorem decompose_nil : decompose front closes [] = ⟨[], [], false⟩ := by
  rw [decompose_eq reads, reads.idle]

/-- A reader that found a frame finds it again when more has arrived. -/
theorem front_append {bytes : List β} {size : Nat} (read : front bytes = .frame size)
    (more : List β) : front (bytes ++ more) = .frame size := by
  have again := reads.framed bytes size read (bytes.drop size ++ more)
  rw [← append_assoc, take_append_drop] at again
  exact again

/-- The walk over what has arrived, one frame after the other. -/
theorem decompose_induction {motive : List β → Parse β → Prop}
    (wait : ∀ bytes, front bytes = .wait → motive bytes ⟨[], bytes, false⟩)
    (bad : ∀ bytes, front bytes = .bad → motive bytes ⟨[], bytes, true⟩)
    (last : ∀ bytes size, front bytes = .frame size → closes (bytes.take size) = true →
      motive bytes ⟨[bytes.take size], bytes.drop size, true⟩)
    (next : ∀ bytes size later, front bytes = .frame size → closes (bytes.take size) = false →
      motive (bytes.drop size) later →
      motive bytes { later with frames := bytes.take size :: later.frames })
    (bytes : List β) : motive bytes (decompose front closes bytes) := by
  induction size : bytes.length using Nat.strongRecOn generalizing bytes with
  | ind length ih =>
    rw [decompose_eq reads]
    cases read : front bytes with
    | wait => exact wait bytes read
    | bad => exact bad bytes read
    | frame taken =>
      obtain ⟨positive, within⟩ := reads.within bytes taken read
      simp only
      cases ends : closes (bytes.take taken) with
      | true => exact last bytes taken read ends
      | false =>
        have shorter : (bytes.drop taken).length < length := by
          rw [length_drop]
          omega
        exact next bytes taken _ read ends (ih _ shorter _ rfl)

/-- What has arrived is decomposed once: later chunks only go on from what was left over. -/
theorem decompose_append (first second : List β) :
    decompose front closes (first ++ second) =
      let before := decompose front closes first
      if before.closed then { before with rest := before.rest ++ second }
      else
        let after := decompose front closes (before.rest ++ second)
        { after with frames := before.frames ++ after.frames } := by
  refine @decompose_induction β front closes reads (fun first before =>
    decompose front closes (first ++ second) =
      if before.closed then { before with rest := before.rest ++ second }
      else
        let after := decompose front closes (before.rest ++ second)
        { after with frames := before.frames ++ after.frames }) ?_ ?_ ?_ ?_ first
  · intro bytes _
    rfl
  · intro bytes read
    rw [decompose_eq reads, reads.stuck bytes read second]
    rfl
  · intro bytes size read ends
    have within := (reads.within bytes size read).2
    rw [decompose_eq reads, front_append reads read second]
    simp only [take_append_of_le_length within, drop_append_of_le_length within, ends,
      if_true]
  · intro bytes size later read ends rest
    have within := (reads.within bytes size read).2
    rw [decompose_eq reads, front_append reads read second]
    simp only [take_append_of_le_length within, drop_append_of_le_length within, ends,
      Bool.false_eq_true, if_false]
    rw [rest]
    simp only
    split <;> rfl

/-- The frames so far stay when more arrives. -/
theorem decompose_frames_append (first second : List β) :
    (decompose front closes (first ++ second)).frames =
      (decompose front closes first).frames ++
        (decompose front closes (first ++ second)).frames.drop
          (decompose front closes first).frames.length := by
  rw [decompose_append reads]
  simp only
  split
  · rw [drop_length, append_nil]
  · rw [drop_left]

theorem front_take {bytes : List β} {size : Nat} (read : front bytes = .frame size) :
    front (bytes.take size) = .frame (bytes.take size).length := by
  have again := reads.framed bytes size read []
  rw [append_nil] at again
  rw [again, length_take, Nat.min_eq_left (reads.within bytes size read).2]

/-- Nothing is lost, every frame is whole, and only the last one may end the stream. -/
theorem decompose_spec (bytes : List β) :
    let parse := decompose front closes bytes
    parse.frames.flatten ++ parse.rest = bytes ∧
      (∀ frame ∈ parse.frames, front frame = .frame frame.length) ∧
      (∀ first frame later, parse.frames = first ++ frame :: later →
        ∀ other ∈ first, closes other = false) ∧
      ((∃ frame ∈ parse.frames, closes frame = true) → parse.closed = true) := by
  refine @decompose_induction β front closes reads (fun bytes parse =>
    parse.frames.flatten ++ parse.rest = bytes ∧
      (∀ frame ∈ parse.frames, front frame = .frame frame.length) ∧
      (∀ first frame later, parse.frames = first ++ frame :: later →
        ∀ other ∈ first, closes other = false) ∧
      ((∃ frame ∈ parse.frames, closes frame = true) → parse.closed = true)) ?_ ?_ ?_ ?_ bytes
  · intro bytes _
    simp
  · intro bytes _
    simp
  · intro bytes size read ends
    refine ⟨by simp, ?_, ?_, fun _ => rfl⟩
    · intro frame member
      rw [mem_singleton.mp member]
      exact front_take reads read
    · intro first frame later split other member
      obtain _ | ⟨head, tail⟩ := first
      · cases member
      · rw [cons_append] at split
        have nothing := (List.cons.inj split).2
        cases tail <;> cases nothing
  · rintro bytes size later read goes ⟨flat, whole, opens, ended⟩
    refine ⟨?_, ?_, ?_, ?_⟩
    · rw [flatten_cons, append_assoc, flat, take_append_drop]
    · intro frame member
      rcases mem_cons.mp member with rfl | inside
      · exact front_take reads read
      · exact whole frame inside
    · intro first frame rest split other member
      obtain _ | ⟨head, tail⟩ := first
      · cases member
      · rw [cons_append] at split
        obtain ⟨rfl, same⟩ := List.cons.inj split
        rcases mem_cons.mp member with rfl | inside
        · exact goes
        · exact opens tail frame rest same other inside
    · rintro ⟨frame, member, ends⟩
      rcases mem_cons.mp member with rfl | inside
      · rw [goes] at ends
        cases ends
      · exact ended ⟨frame, inside, ends⟩

end Decompose

section Streams

variable {β γ σ ι : Type} [DecidableEq ι]

/-- All that arrived on one stream. -/
def streamOf (key : ι) (calls : List (ι × List β)) : List β :=
  (calls.filter (fun call => call.1 = key)).flatMap Prod.snd

/-- What was answered on one stream. -/
def sentOn {α : Type} (key : ι) (inputs : List (ι × α)) (answers : List (List γ)) : List γ :=
  ((inputs.zip answers).filter (fun pair => pair.1.1 = key)).flatMap Prod.snd

theorem streamOf_snoc (key : ι) (calls : List (ι × List β)) (call : ι × List β) :
    streamOf key (calls ++ [call]) =
      if call.1 = key then streamOf key calls ++ call.2 else streamOf key calls := by
  simp only [streamOf, filter_append, List.flatMap_append]
  split <;> simp_all

theorem sentOn_append {α : Type} (key : ι) {inputs : List (ι × α)} {answers : List (List γ)}
    (lengths : answers.length = inputs.length) (others : List (ι × α)) (later : List (List γ)) :
    sentOn key (inputs ++ others) (answers ++ later) =
      sentOn key inputs answers ++ sentOn key others later := by
  simp only [sentOn, zip_append lengths.symm, filter_append, List.flatMap_append]

/-- The answers to inputs of one stream only. -/
theorem sentOn_alike {α : Type} {key other : ι} {inputs : List (ι × α)} {answers : List (List γ)}
    (alike : ∀ input ∈ inputs, input.1 = other) (lengths : answers.length = inputs.length) :
    sentOn key inputs answers = if other = key then answers.flatten else [] := by
  induction inputs generalizing answers with
  | nil =>
    rw [length_nil, length_eq_zero_iff] at lengths
    rw [lengths]
    split <;> rfl
  | cons input inputs ih =>
    obtain _ | ⟨answer, answers⟩ := answers
    · cases lengths
    · have first := alike input mem_cons_self
      have rest := ih (fun input member => alike input (mem_cons_of_mem _ member))
        (Nat.succ.inj lengths)
      simp only [sentOn, zip_cons_cons, filter_cons, first] at rest ⊢
      by_cases same : other = key
      · simp only [same, decide_true, if_true, flatMap_cons, flatten_cons] at rest ⊢
        rw [rest]
      · simp only [same, decide_false, Bool.false_eq_true, if_false] at rest ⊢
        exact rest

variable (front : List β → Front) (closes : List β → Bool)

/-- The frames that a chunk completes, by what arrived on its stream before and with it. -/
def completed (past : List (ι × List β)) (call : ι × List β) : List (ι × List β) :=
  let known := (decompose front closes (streamOf call.1 past)).frames
  let frames := (decompose front closes (streamOf call.1 past ++ call.2)).frames
  (frames.drop known.length).map (Prod.mk call.1)

/-- The frames of all streams in the order in which they are complete. -/
def arrivals : List (ι × List β) → List (ι × List β) → List (ι × List β)
  | _, [] => []
  | past, call :: calls => completed front closes past call ++ arrivals (past ++ [call]) calls

theorem completed_key {past : List (ι × List β)} {call frame : ι × List β}
    (member : frame ∈ completed front closes past call) : frame.1 = call.1 := by
  obtain ⟨_, _, rfl⟩ := mem_map.mp member
  rfl

theorem arrivals_snoc (past calls : List (ι × List β)) (call : ι × List β) :
    arrivals front closes past (calls ++ [call]) =
      arrivals front closes past calls ++ completed front closes (past ++ calls) call := by
  induction calls generalizing past with
  | nil => simp [arrivals]
  | cons first calls ih => simp [arrivals, ih]

/-- On each stream the frames arrive as the stream decomposes. -/
theorem arrivals_on {front : List β → Front} {closes : List β → Bool} (reads : Reads front)
    (key : ι) (calls : List (ι × List β)) :
    ((arrivals front closes [] calls).filter (fun frame => frame.1 = key)).map Prod.snd =
      (decompose front closes (streamOf key calls)).frames := by
  induction calls using List.reverseRecOn with
  | nil => exact (congrArg Parse.frames (decompose_nil reads)).symm
  | append_singleton calls call ih =>
    obtain ⟨other, chunk⟩ := call
    rw [arrivals_snoc, filter_append, map_append, ih, nil_append, streamOf_snoc]
    by_cases same : other = key
    · subst same
      have all : (completed front closes calls (other, chunk)).filter
          (fun frame => frame.1 = other) = completed front closes calls (other, chunk) :=
        filter_eq_self.mpr
          (fun _ member => decide_eq_true (completed_key front closes member))
      have untagged : (Prod.snd ∘ Prod.mk other : List β → List β) = id := rfl
      rw [if_pos rfl, decompose_frames_append reads, all, completed, map_map, untagged,
        map_id]
    · have none : (completed front closes calls (other, chunk)).filter
          (fun frame => frame.1 = key) = [] := by
        refine filter_eq_nil_iff.mpr (fun _ member => ?_)
        rw [completed_key front closes member]
        simpa using same
      rw [if_neg same, none, map_nil, append_nil]

/-- Readers of many streams over what they share. -/
structure Hub (σ β ι : Type) where
  shared : σ
  rest : ι → List β
  closed : ι → Bool

/-- No reader has anything yet. -/
def Hub.fresh (shared : σ) : Hub σ β ι := ⟨shared, fun _ => [], fun _ => false⟩

variable (handle : σ → List β → σ × List γ)

/-- A chunk arrives: its reader handles every frame that is now whole. -/
def Hub.call (hub : Hub σ β ι) (call : ι × List β) : Hub σ β ι × List γ :=
  if hub.closed call.1 then (hub, [])
  else
    let parse := decompose front closes (hub.rest call.1 ++ call.2)
    let served := Machine.run handle hub.shared parse.frames
    (⟨served.1, Function.update hub.rest call.1 parse.rest,
      Function.update hub.closed call.1 parse.closed⟩, served.2.flatten)

/-- One frame after the other, in the order of their arrival. -/
def handleAll (shared : σ) (frames : List (ι × List β)) : σ × List (List γ) :=
  Machine.run (fun shared frame => handle shared frame.2) shared frames

omit [DecidableEq ι] in
theorem handleAll_single (shared : σ) (key : ι) (frames : List (List β)) :
    handleAll handle shared (frames.map (Prod.mk key)) = Machine.run handle shared frames := by
  induction frames generalizing shared with
  | nil => rfl
  | cons frame frames ih =>
    have rest := ih (handle shared frame).1
    simp only [handleAll, map_cons, Machine.run_cons] at rest ⊢
    rw [rest]

variable {front} {closes}

/-- What the readers know is what the streams decompose to. -/
structure Follows (front : List β → Front) (closes : List β → Bool) (hub : Hub σ β ι)
    (calls : List (ι × List β)) : Prop where
  closed : ∀ key, hub.closed key = (decompose front closes (streamOf key calls)).closed
  rest : ∀ key, hub.closed key = false →
    hub.rest key = (decompose front closes (streamOf key calls)).rest

theorem follows_fresh (reads : Reads front) (shared : σ) :
    Follows front closes (Hub.fresh shared : Hub σ β ι) [] := by
  constructor
  · intro key
    exact (congrArg Parse.closed (decompose_nil reads)).symm
  · intro key _
    exact (congrArg Parse.rest (decompose_nil reads)).symm

/-- A chunk concerns its own stream only. -/
theorem Follows.extend {hub next : Hub σ β ι} {past : List (ι × List β)}
    (follows : Follows front closes hub past) {key : ι} {chunk : List β}
    (closed : next.closed key = (decompose front closes (streamOf key past ++ chunk)).closed)
    (rest : next.closed key = false →
      next.rest key = (decompose front closes (streamOf key past ++ chunk)).rest)
    (elsewhere : ∀ other, key ≠ other →
      next.closed other = hub.closed other ∧ next.rest other = hub.rest other) :
    Follows front closes next (past ++ [(key, chunk)]) := by
  constructor
  · intro other
    rw [streamOf_snoc]
    by_cases same : key = other
    · subst same
      rw [if_pos rfl]
      exact closed
    · rw [if_neg same, (elsewhere other same).1]
      exact follows.closed other
  · intro other reading
    rw [streamOf_snoc]
    by_cases same : key = other
    · subst same
      rw [if_pos rfl]
      exact rest reading
    · rw [(elsewhere other same).1] at reading
      rw [if_neg same, (elsewhere other same).2]
      exact follows.rest other reading

/-- One call keeps the readers in step with their streams and handles what it completes. -/
theorem Follows.call (reads : Reads front) {hub : Hub σ β ι} {past : List (ι × List β)}
    (follows : Follows front closes hub past) (call : ι × List β) :
    let next := hub.call front closes handle call
    let direct := handleAll handle hub.shared (completed front closes past call)
    Follows front closes next.1 (past ++ [call]) ∧ next.1.shared = direct.1 ∧
      next.2 = direct.2.flatten := by
  obtain ⟨key, chunk⟩ := call
  have grown : decompose front closes (streamOf key past ++ chunk) = _ :=
    decompose_append reads (streamOf key past) chunk
  simp only [Hub.call, completed, handleAll_single]
  cases ended : hub.closed key with
  | true =>
    -- nothing is read any more, and nothing is complete
    have shut := follows.closed key
    rw [ended] at shut
    simp only [← shut, if_true] at grown
    simp only [if_true, grown, drop_length, Machine.run_nil, flatten_nil]
    refine ⟨follows.extend ?_ ?_ (fun _ _ => ⟨rfl, rfl⟩), trivial, trivial⟩
    · rw [grown]
      exact ended
    · intro reading
      rw [ended] at reading
      cases reading
  | false =>
    have reading := follows.closed key
    rw [ended] at reading
    have held := follows.rest key ended
    simp only [← reading, Bool.false_eq_true, if_false, ← held] at grown
    simp only [Bool.false_eq_true, if_false, grown, drop_left]
    refine ⟨follows.extend ?_ ?_ ?_, trivial, trivial⟩
    · simp only [Function.update_self, grown]
    · intro _
      simp only [Function.update_self, grown]
    · intro other apart
      exact ⟨Function.update_of_ne (Ne.symm apart) _ _, Function.update_of_ne (Ne.symm apart) _ _⟩

/-- However the streams are cut into chunks, the frames are handled as they arrive. -/
theorem run_call (reads : Reads front) (shared : σ) (calls : List (ι × List β)) :
    let run := Machine.run (Hub.call front closes handle) (Hub.fresh shared) calls
    let direct := handleAll handle shared (arrivals front closes [] calls)
    Follows front closes run.1 calls ∧ run.1.shared = direct.1 ∧
      ∀ key, sentOn key calls run.2 = sentOn key (arrivals front closes [] calls) direct.2 := by
  induction calls using List.reverseRecOn with
  | nil => exact ⟨follows_fresh reads shared, rfl, fun _ => rfl⟩
  | append_singleton calls call ih =>
    obtain ⟨follows, state, sent⟩ := ih
    obtain ⟨next, served, answered⟩ := follows.call handle reads call
    have arrived := arrivals_snoc front closes [] calls call
    rw [nil_append] at arrived
    simp only [handleAll] at state sent served answered ⊢
    rw [arrived, Machine.run_append, Machine.run_append, Machine.run_cons, Machine.run_nil]
    rw [← state]
    refine ⟨next, served, ?_⟩
    intro key
    rw [sentOn_append key (Machine.run_length _ _), sentOn_append key (Machine.run_length _ _),
      sent key]
    have alone : ∀ input ∈ [call], input.1 = call.1 := by
      intro input member
      rw [mem_singleton.mp member]
    rw [sentOn_alike alone rfl, flatten_singleton, answered,
      sentOn_alike (fun _ member => completed_key front closes member) (Machine.run_length _ _)]

end Streams

end Reassembly
