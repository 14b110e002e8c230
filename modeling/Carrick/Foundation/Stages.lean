import Mathlib.Tactic.Common

namespace Carrick
namespace Foundation

/-!
# The stages of a run

A total step function replays a list of events, oldest first, and `stage n` is
the state before the event at position `n`.  Positions make it possible to say
that one event happened before another, and the rule of this module carries a
property from a stage to every later one.
-/

universe u v

variable {State : Type u} {Event : Type v}

section Stage

variable (step : State -> Event -> State) (start : State) (events : List Event)

/-- The state after the first `n` events. -/
def stage (n : Nat) : State :=
  (events.take n).foldl step start

variable {step start events}

theorem stage_next {n : Nat} {event : Event} (present : events[n]? = some event) :
    stage step start events (n + 1) = step (stage step start events n) event := by
  unfold stage
  rw [List.take_add_one, present, Option.toList_some, List.foldl_append]
  rfl

theorem stage_past {n : Nat} (missing : events[n]? = none) :
    stage step start events (n + 1) = stage step start events n := by
  unfold stage
  rw [List.take_add_one, missing, Option.toList_none, List.append_nil]

/-- What every event from `m` up to `n` keeps is carried from one to the other. -/
theorem stage_keeps_between (holds : State -> Prop) {m n : Nat} (later : m <= n)
    (kept : ∀ k event, m <= k -> k < n -> events[k]? = some event ->
      holds (stage step start events k) -> holds (step (stage step start events k) event))
    (held : holds (stage step start events m)) : holds (stage step start events n) := by
  induction later with
  | refl => exact held
  | @step n reached ih =>
    have earlier := ih
      (fun k event after before => kept k event after (Nat.lt_succ_of_lt before))
    cases present : events[n]? with
    | none =>
      rw [stage_past present]
      exact earlier
    | some event =>
      rw [stage_next present]
      exact kept n event reached (Nat.lt_succ_self n) present earlier

theorem stage_keeps (holds : State -> Prop)
    (kept : ∀ state event, event ∈ events -> holds state -> holds (step state event))
    {m n : Nat} (later : m <= n) (held : holds (stage step start events m)) :
    holds (stage step start events n) :=
  stage_keeps_between holds later
    (fun _ event _ _ present => kept _ event (List.mem_of_getElem? present)) held

/-- What holds at the start and is kept by every event holds at every stage. -/
theorem stage_invariant (holds : State -> Prop) (atStart : holds start)
    (kept : ∀ state event, event ∈ events -> holds state -> holds (step state event))
    (n : Nat) : holds (stage step start events n) :=
  stage_keeps holds kept (Nat.zero_le n) atStart

end Stage

section Between

variable (events : List Event) (kind : Event -> Bool)

/-- How many events of a kind there are from position `m` up to `n`. -/
def countBetween (m n : Nat) : Nat :=
  ((events.take n).drop m).countP kind

variable {events kind}

theorem countBetween_self (n : Nat) : countBetween events kind n n = 0 := by
  unfold countBetween
  rw [List.drop_eq_nil_of_le (by rw [List.length_take]; exact Nat.min_le_left _ _)]
  rfl

theorem countBetween_next {m n : Nat} {event : Event} (later : m <= n)
    (present : events[n]? = some event) :
    countBetween events kind m (n + 1) =
      countBetween events kind m n + if kind event then 1 else 0 := by
  unfold countBetween
  have inside : m <= (events.take n).length := by
    have bounded := (List.getElem?_eq_some_iff.mp present).1
    rw [List.length_take]
    omega
  rw [List.take_add_one, present, Option.toList_some, List.drop_append_of_le_length inside,
    List.countP_append, List.countP_singleton]

theorem countBetween_past {m n : Nat} (missing : events[n]? = none) :
    countBetween events kind m (n + 1) = countBetween events kind m n := by
  unfold countBetween
  rw [List.take_add_one, missing, Option.toList_none, List.append_nil]

theorem countBetween_add {m n l : Nat} (first : m <= n) (later : n <= l) :
    countBetween events kind m n + countBetween events kind n l = countBetween events kind m l := by
  induction later with
  | refl => rw [countBetween_self, Nat.add_zero]
  | @step l reached ih =>
    cases present : events[l]? with
    | none =>
      rw [countBetween_past present, countBetween_past present]
      exact ih
    | some event =>
      rw [countBetween_next reached present,
        countBetween_next (Nat.le_trans first reached) present, <- ih,
        Nat.add_assoc]

theorem countBetween_mono {m n l : Nat} (first : m <= n) (later : n <= l) :
    countBetween events kind m n <= countBetween events kind m l := by
  rw [<- countBetween_add first later]
  exact Nat.le_add_right _ _

end Between

end Foundation
end Carrick
