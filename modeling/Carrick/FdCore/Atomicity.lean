import Carrick.FdCore.Runs

namespace Carrick
namespace FdCore

open Foundation

/-!
# A refused call changes nothing

Each of these calls may fail late: after the slot was chosen, after the first of
two references was taken, in the middle of a copy, or when the publisher of the
copy says no.  Whatever the reason, the tables, the store and the caller's
extent are what they were.
-/

inductive Attempt where
  | openDescriptor (venue : Venue) (table : TableId) (min : Int) (description : Description)
      (cloexec : Bool)
  | dup (venue : Venue) (table : TableId) (old : Int)
  | dupfd (venue : Venue) (table : TableId) (old min : Int) (cloexec : Bool)
  | dup2 (venue : Venue) (table : TableId) (old new : Int)
  | dup3 (venue : Venue) (table : TableId) (old new : Int) (cloexec : Bool)
  | installPin (venue : Venue) (table : TableId) (target : Int) (pin : OfdPin) (cloexec : Bool)
  | replacePin (venue : Venue) (table : TableId) (target : Int) (pin : OfdPin) (cloexec : Bool)
  | installPair (venue : Venue) (table : TableId) (min : Int) (firstPin secondPin : OfdPin)
      (cloexec : Bool)
  | commitReservation (venue : Venue) (reservation : Core.SlotReservation) (pin : OfdPin)
      (cloexec : Bool)
  | forkPublished (venue : Venue) (parent : TableId) (publisher : TableId -> Except Error Unit)
  | growTable (venue : Venue) (table : TableId)
  | createTable (venue : Venue) (limit : Nat)

namespace Attempt

/-- The call, without its answer. -/
def command : Attempt -> Custody.Action Unit
  | .openDescriptor venue table min description cloexec => do
      let _ ← Custody.onCore (Core.openDescriptor venue table min description cloexec)
  | .dup venue table old => do
      let _ ← Custody.onCore (Core.dup venue table old)
  | .dupfd venue table old min cloexec => do
      let _ ← Custody.onCore (Core.dupfd venue table old min cloexec)
  | .dup2 venue table old new => do
      let _ ← Custody.onCore (Core.dup2 venue table old new)
  | .dup3 venue table old new cloexec => do
      let _ ← Custody.onCore (Core.dup3 venue table old new cloexec)
  | .installPin venue table target pin cloexec => do
      let _ ← Custody.onCore (Core.installPin venue table target pin cloexec)
  | .replacePin venue table target pin cloexec => do
      let _ ← Custody.onCore (Core.replacePin venue table target pin cloexec)
  | .installPair venue table min firstPin secondPin cloexec => do
      let _ ← Custody.onCore (Core.installPair venue table min firstPin secondPin cloexec)
  | .commitReservation venue reservation pin cloexec => do
      let _ ← Custody.onCore (Core.commitReservation venue reservation pin cloexec)
  | .forkPublished venue parent publisher => do
      let _ ← Custody.forkPublished venue parent publisher
  | .growTable venue table => Custody.growTable venue table
  | .createTable venue limit => do
      let _ ← Custody.createTable venue limit

end Attempt

section Refusals

variable {α : Type} {before after : Custody} {reason : Error}

theorem refused_of_discarded {action : Custody.Action α}
    (failed : (action >>= fun _ => (pure () : Custody.Action Unit)) before =
      (.error reason, after)) : action before = (.error reason, after) := by
  cases ran : action before with
  | mk outcome middle =>
    cases outcome with
    | ok answer =>
      rw [Command.bind_of_ok ran] at failed
      cases failed
    | error other =>
      rw [Command.bind_of_error ran, Prod.mk.injEq, Except.error.injEq] at failed
      rw [failed.1, failed.2]

theorem refused_of_settles {good : α -> Core -> Prop} {action : Core.Action α}
    (settles : Command.Ends (Settles before.core good) action before.core)
    (failed : (Custody.onCore action >>= fun _ => (pure () : Custody.Action Unit)) before =
      (.error reason, after)) : Refused before after := by
  have refused := refused_of_discarded failed
  cases ran : action before.core with
  | mk outcome core =>
    rw [onCore_eq ran, Prod.mk.injEq] at refused
    rw [refused.1] at ran
    have same : core = before.core := settles.of_eq ran
    rw [<- refused.2, same]
    exact Refused.refl before

theorem refused_of_concludes {who : Nat} {pinned : List OfdKey} {ledger : Ledger}
    {good : α -> Custody -> Prop} {action : Custody.Action α}
    (concludes : Command.Ends (Concludes (RefusedSound who pinned ledger before) good) action
      before) (failed : action before = (.error reason, after)) : Refused before after := by
  have refused : RefusedSound who pinned ledger before after := concludes.of_eq failed
  exact refused.1

end Refusals

/-- From every reachable core, a call that refuses leaves every table in use,
the slots and the extents of the free ones, the store and the caller's extent
as they were. -/
theorem refused_changes_nothing {history : List Call} {world : World}
    (run : Run World.Starts World.Steps history world) (extent : Extent) (attempt : Attempt)
    {reason : Error} {after : Custody}
    (failed : attempt.command ⟨world.core, extent⟩ = (.error reason, after)) :
    Refused ⟨world.core, extent⟩ after := by
  have sound := (run_inOrder run).sound
  cases attempt with
  | openDescriptor venue table min description cloexec =>
    exact refused_of_settles (openDescriptor_settles sound venue table min description cloexec)
      failed
  | dup venue table old => exact refused_of_settles (dup_settles sound venue table old) failed
  | dupfd venue table old min cloexec =>
    exact refused_of_settles (dupfd_settles sound venue table old min cloexec) failed
  | dup2 venue table old new =>
    exact refused_of_settles (dup2With_settles dropRef_drops rfl sound venue table old new) failed
  | dup3 venue table old new cloexec =>
    exact refused_of_settles (dup3With_settles dropRef_drops rfl sound venue table old new cloexec)
      failed
  | installPin venue table target pin cloexec =>
    exact refused_of_settles (installPin_settles sound venue table target pin cloexec) failed
  | replacePin venue table target pin cloexec =>
    exact refused_of_settles (replacePin_settles sound venue table target pin cloexec) failed
  | installPair venue table min firstPin secondPin cloexec =>
    exact refused_of_settles
      (installPair_settles sound venue table min firstPin secondPin cloexec) failed
  | commitReservation venue reservation pin cloexec =>
    exact refused_of_settles
      (commitReservationWith_settles dropRef_drops rfl sound venue reservation pin cloexec) failed
  | forkPublished venue parent publisher =>
    exact refused_of_concludes
      (forkPublished_concludes sound venue parent publisher) (refused_of_discarded failed)
  | growTable venue table => exact refused_of_concludes (growTable_concludes sound venue table) failed
  | createTable venue limit =>
    exact refused_of_concludes (createTable_concludes sound venue limit)
      (refused_of_discarded failed)

/-- A venue that grants everything. -/
def generous : Venue :=
  { resolves := fun _ => true, covers := fun _ => true, acquires := fun _ => true }

/-- A world with one table, whose only descriptor is open, and a table to spare. -/
def forkable : World :=
  [.createTable generous { token := 1, capacity := 1 } 1, .publishOfds true 1,
    .openDescriptor generous { authority := 1, index := 0, generation := 1 } 0 .zeroed false].foldl
    World.perform
    { core := Core.initialized 1 2, pinned := [], ledger := { allocated := [], delivered := [] } }

theorem forkable_reached : Run World.Starts World.Steps
    [.openDescriptor generous { authority := 1, index := 0, generation := 1 } 0 .zeroed false,
      .publishOfds true 1, .createTable generous { token := 1, capacity := 1 } 1] forkable :=
  Run.next (Run.next (Run.next (Run.initial ⟨1, 2, Nat.one_ne_zero, rfl⟩) ⟨trivial, rfl⟩)
    ⟨trivial, rfl⟩) ⟨trivial, rfl⟩

/-- A copy of the table that its publisher refuses: the reference it took to the open
description is dropped again. -/
theorem refused_changes_nothing_fork :
    forkable.ledger.allocated.length = 1 ∧
    Refused ⟨forkable.core, { token := 2, capacity := 1 }⟩
      ((Attempt.forkPublished generous { authority := 1, index := 0, generation := 1 }
        (fun _ => .error .noMemory)).command
          ⟨forkable.core, { token := 2, capacity := 1 }⟩).2 :=
  ⟨by decide +kernel, refused_changes_nothing forkable_reached _ _
    (Prod.ext (by decide +kernel) rfl :
      (Attempt.forkPublished generous { authority := 1, index := 0, generation := 1 }
        (fun _ => .error .noMemory)).command ⟨forkable.core, { token := 2, capacity := 1 }⟩ =
          (.error .noMemory, _))⟩

end FdCore
end Carrick
