import Mathlib.Tactic.Common

namespace Carrick
namespace Foundation

/-!
# Runs of a labelled transition system

A run records its events, newest first, together with the state they lead to.
Properties of a whole history and of the state it reaches are proved by one
rule: they hold at the start and every step carries them over.  A second rule
restricts the steps of a run by a guard on the state before each of them.
-/

universe u v

variable {State : Type u} {Event : Type v}

/-- The runs of `step` from `start`, with their history newest first.  An
induction over a run is an induction over its last event. -/
inductive Run (start : State -> Prop) (step : State -> Event -> State -> Prop) :
    List Event -> State -> Prop
  | initial {state : State} (starts : start state) : Run start step [] state
  | next {history : List Event} {before after : State} {event : Event}
      (earlier : Run start step history before) (taken : step before event after) :
      Run start step (event :: history) after

namespace Run

variable {start : State -> Prop} {step guarded : State -> Event -> State -> Prop}

/-- The induction rule for runs: `holds` may speak about the whole history. -/
theorem invariant (holds : List Event -> State -> Prop)
    (atStart : ∀ state, start state -> holds [] state)
    (preserved : ∀ history before event after,
      Run start step history before -> holds history before ->
      step before event after -> holds (event :: history) after)
    {history : List Event} {state : State} (run : Run start step history state) :
    holds history state := by
  induction run with
  | initial starts => exact atStart _ starts
  | next earlier taken ih =>
    exact preserved _ _ _ _ earlier ih taken

theorem state_invariant (holds : State -> Prop)
    (atStart : ∀ state, start state -> holds state)
    (preserved : ∀ before event after,
      holds before -> step before event after -> holds after)
    {history : List Event} {state : State} (run : Run start step history state) :
    holds state :=
  run.invariant (fun _ state => holds state) atStart
    (fun _ before event after _ held taken => preserved before event after held taken)

theorem weaken (implies : ∀ before event after,
      guarded before event after -> step before event after)
    {history : List Event} {state : State} (run : Run start guarded history state) :
    Run start step history state := by
  induction run with
  | initial starts => exact .initial starts
  | next _ taken ih => exact .next ih (implies _ _ _ taken)

end Run

/-! ## Replaying a total step function -/

section Replay

variable (step : State -> Event -> State) (start : State)

/-- The state after a history of events, newest first. -/
def replay : List Event -> State
  | [] => start
  | event :: earlier => step (replay earlier) event

/-- Every event of the history met the guard in the state before it. -/
def Guarded (guard : State -> Event -> Prop) : List Event -> Prop
  | [] => True
  | event :: earlier => guard (replay step start earlier) event ∧ Guarded guard earlier

/-- Some state of the history had the property. -/
def Ever (property : State -> Prop) (history : List Event) : Prop :=
  ∃ earlier, earlier <:+ history ∧ property (replay step start earlier)

variable {step start}

theorem replay_invariant {guard : State -> Event -> Prop} (holds : State -> Prop)
    (atStart : holds start)
    (preserved : ∀ before event, guard before event -> holds before ->
      holds (step before event)) :
    ∀ {history : List Event}, Guarded step start guard history ->
      holds (replay step start history) := by
  intro history
  induction history with
  | nil =>
    intro _
    exact atStart
  | cons event earlier ih =>
    intro guarded
    exact preserved _ event guarded.1 (ih guarded.2)

theorem ever_nil {property : State -> Prop} :
    Ever step start property [] <-> property start := by
  unfold Ever
  constructor
  · rintro ⟨earlier, suffix, held⟩
    rw [List.suffix_nil.mp suffix] at held
    exact held
  · intro held
    exact ⟨[], List.suffix_refl _, held⟩

theorem ever_cons {property : State -> Prop} {event : Event} {history : List Event} :
    Ever step start property (event :: history) <->
      property (step (replay step start history) event) ∨ Ever step start property history := by
  unfold Ever
  constructor
  · rintro ⟨earlier, suffix, held⟩
    rcases List.suffix_cons_iff.mp suffix with same | older
    · rw [same] at held
      exact .inl held
    · exact .inr ⟨earlier, older, held⟩
  · rintro (now | ⟨earlier, suffix, held⟩)
    · exact ⟨event :: history, List.suffix_refl _, now⟩
    · exact ⟨earlier, suffix.trans (List.suffix_cons _ _), held⟩

end Replay

/-! ## Following a partial step function -/

section Follow

variable (next : State -> Event -> Option State)

/-- The state after a list of events, oldest first, if all of them can happen. -/
def follow : State -> List Event -> Option State
  | state, [] => some state
  | state, event :: rest => (next state event).bind (fun later => follow later rest)

variable {next}

theorem Run.follow {start : State -> Prop} {events history : List Event} {state later : State}
    (run : Run start (fun before event after => next before event = some after) history state)
    (reached : Foundation.follow next state events = some later) :
    Run start (fun before event after => next before event = some after)
      (events.reverse ++ history) later := by
  induction events generalizing state history with
  | nil =>
    cases reached
    exact run
  | cons event rest ih =>
    rw [Foundation.follow, Option.bind_eq_some_iff] at reached
    rcases reached with ⟨middle, taken, further⟩
    rw [List.reverse_cons, List.append_assoc]
    exact ih (.next run taken) further

theorem follow_concat (event : Event) (state : State) (events : List Event) :
    follow next state (events ++ [event]) =
      (follow next state events).bind (fun later => next later event) := by
  induction events generalizing state with
  | nil =>
    rw [List.nil_append, follow, follow, Option.bind_some]
    exact Option.bind_fun_some _
  | cons earlier rest ih =>
    rw [List.cons_append, follow, follow, Option.bind_assoc]
    congr 1
    funext later
    exact ih later

variable (next) in
/-- Where a list of events leads that can all happen. -/
def after (state : State) (events : List Event) : State :=
  (follow next state events).getD state

theorem after_next {state : State} {events : List Event} {event : Event}
    (reached : (follow next state (events ++ [event])).isSome = true) :
    next (after next state events) event = some (after next state (events ++ [event])) := by
  unfold after
  rw [follow_concat] at reached ⊢
  cases earlier : follow next state events with
  | none =>
    rw [earlier] at reached
    cases reached
  | some middle =>
    rw [earlier, Option.bind_some] at reached
    rw [Option.getD_some, Option.bind_some]
    cases taken : next middle event with
    | none =>
      rw [taken] at reached
      cases reached
    | some later => rfl

end Follow

end Foundation
end Carrick
