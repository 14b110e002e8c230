import Carrick.FdCore.Runs

namespace Carrick
namespace FdCore

open Foundation
open Foundation.Command (Keeps)

/-!
# Only the filtered operations defer

The retired stack holds the descriptions whose release waits for the host.  The
filtered operations push to it and `takeRetiredOfd` pops; every other operation
leaves it alone, whether it returns or refuses.  What is known of the steps of an
operation gives the instance of `Keeps` for it; only an edit that stands in the
operation itself is shown to leave the stack alone by hand.
-/

namespace OfdStore

instance ofd_keeps (index : Nat) : Keeps retiredOfds (ofd index) := by
  unfold ofd
  infer_instance

instance setRecord_keeps (index : Nat) (record : OfdRecord) :
    Keeps retiredOfds (setRecord index record) :=
  Keeps.edit (fun _ => rfl)

instance publishOfds_keeps (provided : Bool) (count : Nat) :
    Keeps retiredOfds (publishOfds provided count) := by
  unfold publishOfds
  refine Keeps.past (fun _ => Keeps.past (fun _ => ?_))
  split_ifs
  · exact Keeps.pure ()
  · exact Keeps.past (fun _ => Keeps.edit (fun _ => rfl))

instance allocOfd_keeps (description : Description) :
    Keeps retiredOfds (allocOfd description) := by
  unfold allocOfd
  refine Keeps.past (fun _ => Keeps.past (fun _ => ?_))
  exact Keeps.bind (Keeps.edit (fun _ => rfl)) inferInstance

instance freeOfd_keeps (index : Nat) : Keeps retiredOfds (freeOfd index) := by
  unfold freeOfd
  refine Keeps.past (fun _ => Keeps.past (fun _ => ?_))
  split_ifs
  · exact Keeps.edit (fun _ => rfl)
  · exact Keeps.pure ()

instance retain_keeps (index : Nat) (hold : Hold) : Keeps retiredOfds (retain index hold) := by
  unfold retain
  infer_instance

instance retainUnlessFinal_keeps (index : Nat) (hold : Hold) :
    Keeps retiredOfds (retainUnlessFinal index hold) := by
  unfold retainUnlessFinal
  infer_instance

instance dropHold_keeps (index : Nat) (hold : Hold) : Keeps retiredOfds (dropHold index hold) := by
  unfold dropHold
  infer_instance

theorem takeRetiredOfd_shrinks (store : OfdStore) {index : Nat}
    (left : index ∈ (takeRetiredOfd store).2.retiredOfds) : index ∈ store.retiredOfds := by
  have popped : ∀ first : Nat, Keeps retiredOfds (do
      let record <- ofd first
      freeOfd first
      pure (some (⟨⟨first, record.generation⟩, record.description⟩ : Release))) :=
    inferInstance
  unfold takeRetiredOfd at left
  rw [Command.observe_bind_apply] at left
  cases top : store.retiredOfds.head? with
  | none =>
    rw [top] at left
    exact left
  | some first =>
    rw [top] at left
    simp only [Command.observe_bind_apply] at left
    split_ifs at left
    · exact left
    rw [Command.edit_bind_apply] at left
    have rest := (popped first).same { store with retiredOfds := store.retiredOfds.tail }
    simp only at rest
    rw [rest] at left
    exact List.mem_of_mem_tail left

end OfdStore

namespace Core

/-- The retired stack of the core. -/
def deferred (core : Core) : List Nat := core.store.retiredOfds

instance onStore_keeps {α : Type} {action : OfdStore.Action α}
    [keeps : Keeps OfdStore.retiredOfds action] : Keeps deferred (onStore action) := by
  refine Keeps.zoom ?_ ?_ keeps
  · intro _ _
    rfl
  · intro _
    rfl

instance storageOf_keeps (index : Nat) : Keeps deferred (storageOf index) := by
  unfold storageOf
  infer_instance

instance editStorage_keeps (index : Nat) (change : TableStorage -> TableStorage) :
    Keeps deferred (editStorage index change) :=
  Keeps.edit (fun _ => rfl)

instance authenticate_keeps : Keeps deferred authenticate := by
  unfold authenticate
  infer_instance

instance lockInStates_keeps (venue : Venue) (id : TableId) (states : List TableState) :
    Keeps deferred (lockInStates venue id states) := by
  unfold lockInStates
  infer_instance

instance lock_keeps (venue : Venue) (id : TableId) : Keeps deferred (lock venue id) := by
  unfold lock
  infer_instance

instance cover_keeps (venue : Venue) (fd : Nat) : Keeps deferred (cover venue fd) := by
  unfold cover
  infer_instance

instance allocateFd_keeps (t : TableRecord) (low : Nat) : Keeps deferred (allocateFd t low) := by
  unfold allocateFd
  infer_instance

instance popTable_keeps : Keeps deferred popTable := by
  unfold popTable
  refine Keeps.past (fun _ => Keeps.past (fun _ => ?_))
  refine Keeps.past (fun _ => Keeps.past (fun _ => ?_))
  exact Keeps.bind (Keeps.edit (fun _ => rfl)) inferInstance

instance pushTable_keeps (index : Nat) : Keeps deferred (pushTable index) := by
  refine Keeps.edit (fun core => ?_)
  split_ifs
  · rfl
  · rfl

instance publish_keeps (index limit : Nat) (extent : Extent) (storage : TableStorage) :
    Keeps deferred (publish index limit extent storage) := by
  unfold publish
  refine Keeps.past (fun _ => Keeps.past (fun _ => ?_))
  exact Keeps.bind (Keeps.edit (fun _ => rfl)) inferInstance

instance freeTable_keeps (index : Nat) : Keeps deferred (freeTable index) :=
  Keeps.edit (fun _ => rfl)

instance setLimit_keeps (venue : Venue) (table : TableId) (limit : Nat) :
    Keeps deferred (setLimit venue table limit) := by
  unfold setLimit
  exact Keeps.past (fun _ => Keeps.past (fun _ => Keeps.edit (fun _ => rfl)))

instance reserveSlot_keeps (index fd : Nat) : Keeps deferred (reserveSlot index fd) := by
  unfold reserveSlot
  infer_instance

instance install_keeps (index fd : Nat) (entry : Entry) : Keeps deferred (install index fd entry) := by
  unfold install
  infer_instance

instance openDescriptor_keeps (venue : Venue) (table : TableId) (min : Int)
    (description : Description) (cloexec : Bool) :
    Keeps deferred (openDescriptor venue table min description cloexec) := by
  unfold openDescriptor
  infer_instance

instance duplicateMin_keeps (venue : Venue) (table : TableId) (t : TableRecord) (old : Int)
    (min : Nat) (cloexec : Bool) : Keeps deferred (duplicateMin venue table t old min cloexec) := by
  unfold duplicateMin
  infer_instance

instance dup_keeps (venue : Venue) (table : TableId) (old : Int) :
    Keeps deferred (dup venue table old) := by
  unfold dup
  infer_instance

instance dupfd_keeps (venue : Venue) (table : TableId) (old min : Int) (cloexec : Bool) :
    Keeps deferred (dupfd venue table old min cloexec) := by
  unfold dupfd
  infer_instance

section Dropping

variable {ρ : Type} {drop : Nat -> OfdStore.Action ρ} {nothing : ρ}
  [∀ ofd, Keeps OfdStore.retiredOfds (drop ofd)]

instance closeLockedWith_keeps (index : Nat) (fd : Int) :
    Keeps deferred (closeLockedWith drop index fd) := by
  unfold closeLockedWith
  infer_instance

instance replaceExactWith_keeps (venue : Venue) (table : TableId) (t : TableRecord) (ofd : Nat)
    (new : Int) (cloexec : Bool) :
    Keeps deferred (replaceExactWith drop nothing venue table t ofd new cloexec) := by
  unfold replaceExactWith
  refine Keeps.past (fun _ => Keeps.past (fun _ => Keeps.past (fun _ => ?_)))
  refine Keeps.past (fun _ => Keeps.past (fun _ => Keeps.past (fun closed => ?_)))
  split
  · infer_instance
  · infer_instance
  · infer_instance

instance dup2With_keeps (venue : Venue) (table : TableId) (old new : Int) :
    Keeps deferred (dup2With drop nothing venue table old new) := by
  unfold dup2With
  infer_instance

instance dup3With_keeps (venue : Venue) (table : TableId) (old new : Int) (cloexec : Bool) :
    Keeps deferred (dup3With drop nothing venue table old new cloexec) := by
  unfold dup3With
  infer_instance

instance closeWith_keeps (venue : Venue) (table : TableId) (fd : Int) :
    Keeps deferred (closeWith drop venue table fd) := by
  unfold closeWith
  infer_instance

end Dropping

instance dropRef_keeps (ofd : Nat) : Keeps OfdStore.retiredOfds (dropRef ofd) := by
  unfold dropRef
  infer_instance

instance closeLocked_keeps (index : Nat) (fd : Int) : Keeps deferred (closeLocked index fd) := by
  unfold closeLocked
  infer_instance

instance close_keeps (venue : Venue) (table : TableId) (fd : Int) :
    Keeps deferred (close venue table fd) := by
  unfold close
  infer_instance

instance dup2_keeps (venue : Venue) (table : TableId) (old new : Int) :
    Keeps deferred (dup2 venue table old new) := by
  unfold dup2
  infer_instance

instance dup3_keeps (venue : Venue) (table : TableId) (old new : Int) (cloexec : Bool) :
    Keeps deferred (dup3 venue table old new cloexec) := by
  unfold dup3
  infer_instance

instance closeSelected_keeps (index : Nat) {selects : Entry -> Action Bool}
    [∀ entry, Keeps deferred (selects entry)] (fds : List Nat) :
    Keeps deferred (closeSelected index selects fds) := by
  refine Keeps.collect (fun fd => ?_) fds
  refine Keeps.past (fun storage => ?_)
  cases storage.get fd with
  | none => exact Keeps.pure _
  | some entry => infer_instance

instance markCloexec_keeps (index : Nat) (fds : List Nat) :
    Keeps deferred (markCloexec index fds) := by
  refine Keeps.collect (fun fd => ?_) fds
  refine Keeps.past (fun storage => ?_)
  cases storage.get fd with
  | none => exact Keeps.pure _
  | some entry => infer_instance

instance closeRange_keeps (venue : Venue) (table : TableId) (first last : Nat) (cloexec : Bool) :
    Keeps deferred (closeRange venue table first last cloexec) := by
  unfold closeRange
  infer_instance

instance exec_keeps (venue : Venue) (table : TableId) : Keeps deferred (exec venue table) := by
  unfold exec
  infer_instance

instance destroyTableInStates_keeps (venue : Venue) (table : TableId) (states : List TableState) :
    Keeps deferred (destroyTableInStates venue table states) := by
  unfold destroyTableInStates
  infer_instance

instance destroyTable_keeps (venue : Venue) (table : TableId) :
    Keeps deferred (destroyTable venue table) := by
  unfold destroyTable
  infer_instance

instance finishRetired_keeps (venue : Venue) (receipt : TableId) :
    Keeps deferred (finishRetired venue receipt) := by
  unfold finishRetired
  infer_instance

instance retireTable_keeps (venue : Venue) (table : TableId) (releaseHere : Description -> Bool) :
    Keeps deferred (retireTable venue table releaseHere) := by
  unfold retireTable
  refine Keeps.past (fun _ => ?_)
  refine Keeps.bind (Keeps.edit (fun _ => rfl)) (fun _ => ?_)
  refine Keeps.past (fun _ => ?_)
  exact Keeps.bind (Keeps.edit (fun _ => rfl)) inferInstance

instance takeRetiredTable_keeps : Keeps deferred takeRetiredTable := by
  unfold takeRetiredTable
  refine Keeps.past (fun top => ?_)
  cases top with
  | none => exact Keeps.pure _
  | some index =>
    refine Keeps.past (fun found => ?_)
    cases found with
    | none => exact Keeps.pure _
    | some record => exact Keeps.bind (Keeps.edit (fun _ => rfl)) inferInstance

instance checkPin_keeps (pin : OfdPin) : Keeps deferred (checkPin pin) := by
  unfold checkPin
  infer_instance

instance pin_keeps (venue : Venue) (table : TableId) (fd : Int) :
    Keeps deferred (pin venue table fd) := by
  unfold pin
  refine Keeps.past (fun _ => Keeps.past (fun _ => Keeps.past (fun _ => ?_)))
  infer_instance

instance createPinned_keeps (description : Description) :
    Keeps deferred (createPinned description) := by
  unfold createPinned
  infer_instance

instance unpin_keeps (pin : OfdPin) : Keeps deferred (unpin pin) := by
  unfold unpin
  infer_instance

section TableId

variable (venue : Venue) (table : TableId)

include venue table

instance installPin_keeps (target : Int) (pin : OfdPin) (cloexec : Bool) :
    Keeps deferred (installPin venue table target pin cloexec) := by
  unfold installPin
  refine Keeps.past (fun _ => Keeps.past (fun _ => Keeps.past (fun _ => Keeps.past (fun _ => ?_))))
  infer_instance

instance replacePin_keeps (target : Int) (pin : OfdPin) (cloexec : Bool) :
    Keeps deferred (replacePin venue table target pin cloexec) := by
  unfold replacePin
  infer_instance

instance installPair_keeps (min : Int) (firstPin secondPin : OfdPin) (cloexec : Bool) :
    Keeps deferred (installPair venue table min firstPin secondPin cloexec) := by
  unfold installPair
  refine Keeps.past (fun _ => Keeps.past (fun _ => Keeps.past (fun _ => Keeps.past (fun _ => ?_))))
  refine Keeps.past (fun _ => Keeps.past (fun _ => Keeps.past (fun _ => Keeps.past (fun _ => ?_))))
  refine Keeps.past (fun _ => Keeps.past (fun kept => ?_))
  cases kept with
  | error reason => infer_instance
  | ok _ => infer_instance

instance reserveMin_keeps (min : Int) :
    Keeps deferred (reserveMin venue table min) := by
  unfold reserveMin
  infer_instance

instance reserveDupMin_keeps (min : Int) :
    Keeps deferred (reserveDupMin venue table min) := by
  unfold reserveDupMin
  infer_instance

instance reserveExact_keeps (fd : Int) :
    Keeps deferred (reserveExact venue table fd) := by
  unfold reserveExact
  infer_instance

end TableId

instance cancelReservation_keeps (venue : Venue) (reservation : SlotReservation) :
    Keeps deferred (cancelReservation venue reservation) := by
  unfold cancelReservation
  infer_instance

instance commitReservationWith_keeps {ρ : Type} {drop : Nat -> OfdStore.Action ρ} {nothing : ρ}
    [∀ ofd, Keeps OfdStore.retiredOfds (drop ofd)] (venue : Venue) (reservation : SlotReservation) (pin : OfdPin)
    (cloexec : Bool) :
    Keeps deferred (commitReservationWith drop nothing venue reservation pin cloexec) := by
  unfold commitReservationWith
  refine Keeps.past (fun t => Keeps.past (fun _ => Keeps.past (fun _ => Keeps.past (fun _ => ?_))))
  refine Keeps.past (fun _ => Keeps.past (fun _ => Keeps.past (fun _ => ?_)))
  split
  · infer_instance
  · infer_instance

instance commitReservation_keeps (venue : Venue) (reservation : SlotReservation) (pin : OfdPin)
    (cloexec : Bool) : Keeps deferred (commitReservation venue reservation pin cloexec) := by
  unfold commitReservation
  infer_instance

end Core

/-! ## The operations that take an extent -/

namespace Custody

/-- The retired stack of the core. -/
def deferred (custody : Custody) : List Nat := custody.core.deferred

instance onCore_keeps {α : Type} {action : Core.Action α} [keeps : Keeps Core.deferred action] :
    Keeps deferred (onCore action) := by
  refine Keeps.zoom ?_ ?_ keeps
  · intro _ _
    rfl
  · intro _
    rfl

instance undoRetains_keeps (prior : List Entry) : Keeps OfdStore.retiredOfds (undoRetains prior) := by
  induction prior with
  | nil => exact Keeps.pure ()
  | cons entry rest ih =>
    unfold undoRetains
    infer_instance

instance retainSlots_keeps (slots : List DescriptorSlot) :
    ∀ prior : List Entry, Keeps OfdStore.retiredOfds (retainSlots prior slots) := by
  induction slots with
  | nil => exact fun _ => Keeps.pure []
  | cons slot rest ih =>
    intro prior
    unfold retainSlots
    cases slot.entry with
    | none => infer_instance
    | some entry =>
      refine Keeps.past (fun kept => ?_)
      cases kept with
      | error reason => infer_instance
      | ok _ => infer_instance

instance dropSlots_keeps (slots : List DescriptorSlot) :
    Keeps OfdStore.retiredOfds (dropSlots slots) := by
  induction slots with
  | nil => exact Keeps.pure ()
  | cons slot rest ih =>
    unfold dropSlots
    cases slot.entry with
    | none => exact ih
    | some entry => infer_instance

instance createTable_keeps (venue : Venue) (limit : Nat) :
    Keeps deferred (createTable venue limit) := by
  unfold createTable
  refine Keeps.past (fun _ => Keeps.past (fun _ => Keeps.past (fun _ => ?_)))
  refine Keeps.past (fun _ => Keeps.past (fun _ => ?_))
  split_ifs
  · refine Keeps.past (fun _ => ?_)
    exact Keeps.bind (Keeps.edit (fun _ => rfl)) inferInstance
  · infer_instance

instance growTable_keeps (venue : Venue) (table : TableId) :
    Keeps deferred (growTable venue table) := by
  unfold growTable
  refine Keeps.past (fun _ => Keeps.past (fun _ => Keeps.past (fun _ => Keeps.past (fun _ => ?_))))
  refine Keeps.bind (@onCore_keeps _ _ (Keeps.edit (fun _ => rfl))) (fun _ => ?_)
  exact Keeps.edit (fun _ => rfl)

instance forkPublished_keeps (venue : Venue) (parent : TableId)
    (publisher : TableId -> Except Error Unit) :
    Keeps deferred (forkPublished venue parent publisher) := by
  unfold forkPublished
  refine Keeps.past (fun _ => Keeps.past (fun _ => Keeps.past (fun _ => ?_)))
  refine Keeps.past (fun _ => Keeps.past (fun index => ?_))
  split_ifs
  · refine Keeps.past (fun kept => ?_)
    cases kept with
    | error reason => infer_instance
    | ok slots =>
      refine Keeps.past (fun id => ?_)
      refine Keeps.bind (Keeps.edit (fun _ => rfl)) (fun _ => ?_)
      cases publisher id with
      | ok _ => exact Keeps.pure _
      | error reason =>
        refine Keeps.past (fun _ => ?_)
        exact Keeps.bind (Keeps.edit (fun _ => rfl)) inferInstance
  · infer_instance

end Custody

/-! ## Over a call -/

/-- The calls that may leave a description on the retired stack. -/
def Call.Defers : Call -> Prop
  | .dup2Filtered _ _ _ _ _ => True
  | .dup3Filtered _ _ _ _ _ _ => True
  | .closeFiltered _ _ _ _ => True
  | .unpinFiltered _ _ => True
  | .commitReservationFiltered _ _ _ _ _ => True
  | _ => False

theorem settle_core {α : Type} (world : World) (outcome : Except Error α × Core)
    {note : α -> World -> World}
    (unchanged : ∀ answer after, (note answer after).core = after.core) :
    (world.settle outcome note).core = outcome.2 := by
  rcases outcome with ⟨reason | answer, after⟩
  · rfl
  · exact unchanged answer _

theorem settle_deferred {α : Type} (world : World) {command : Core.Action α}
    [keeps : Keeps Core.deferred command] {note : α -> World -> World}
    (unchanged : ∀ answer after, (note answer after).core = after.core) :
    (world.settle (command world.core) note).core.deferred = world.core.deferred := by
  rw [settle_core world _ unchanged]
  exact keeps.same world.core

theorem settle_custody_deferred {α : Type} (world : World) (extent : Extent) {command : Custody.Action α}
    [keeps : Keeps Custody.deferred command] :
    (world.settle (World.ofCustody (command ⟨world.core, extent⟩)) World.unnoted).core.deferred =
      world.core.deferred := by
  have unchanged : ∀ (answer : α) (after : World), (World.unnoted answer after).core = after.core :=
    fun _ _ => rfl
  rw [settle_core world _ unchanged]
  exact keeps.same ⟨world.core, extent⟩

theorem allocating_core (world : World) (next : Option OfdKey) (description : Description) :
    (world.allocating next description).core = world.core := by
  cases next with
  | none => rfl
  | some key => rfl

/-- A call that neither defers nor takes leaves the retired stack alone. -/
theorem perform_deferred (world : World) {call : Call} (plain : ¬ call.Defers)
    (other : call ≠ .takeRetiredOfd) :
    (world.perform call).core.deferred = world.core.deferred := by
  cases call with
  | publishOfds provided count =>
    exact settle_deferred world (fun _ _ => rfl)
  | createTable venue extent limit =>
    exact settle_custody_deferred world extent
  | growTable venue extent table =>
    exact settle_custody_deferred world extent
  | forkPublished venue extent parent publisher =>
    exact settle_custody_deferred world extent
  | setLimit venue table limit =>
    exact settle_deferred world (fun _ _ => rfl)
  | openDescriptor venue table min description cloexec =>
    exact settle_deferred world (fun _ after => allocating_core after _ _)
  | dup venue table old => exact settle_deferred world (fun _ _ => rfl)
  | dupfd venue table old min cloexec =>
    exact settle_deferred world (fun _ _ => rfl)
  | dup2 venue table old new =>
    exact settle_deferred world (fun _ _ => rfl)
  | dup3 venue table old new cloexec =>
    exact settle_deferred world (fun _ _ => rfl)
  | close venue table fd =>
    exact settle_deferred world (fun _ _ => rfl)
  | dup2Filtered venue table old new releaseHere => exact absurd trivial plain
  | dup3Filtered venue table old new cloexec releaseHere => exact absurd trivial plain
  | closeFiltered venue table fd releaseHere => exact absurd trivial plain
  | closeRange venue table first last cloexec =>
    exact settle_deferred world (fun _ _ => rfl)
  | exec venue table => exact settle_deferred world (fun _ _ => rfl)
  | destroyTable venue table =>
    exact settle_deferred world (fun _ _ => rfl)
  | retireTable venue table releaseHere =>
    exact settle_deferred world (fun _ _ => rfl)
  | takeRetiredTable =>
    exact settle_deferred world (fun _ _ => rfl)
  | finishRetired venue receipt =>
    exact settle_deferred world (fun _ _ => rfl)
  | returnRetired receipt => rfl
  | pin venue table fd => exact settle_deferred world (fun _ _ => rfl)
  | createPinned description =>
    exact settle_deferred world (fun _ _ => rfl)
  | unpin pin => exact settle_deferred world (fun _ _ => rfl)
  | unpinFiltered pin releaseHere => exact absurd trivial plain
  | installPin venue table target pin cloexec =>
    exact settle_deferred world (fun _ _ => rfl)
  | replacePin venue table target pin cloexec =>
    exact settle_deferred world (fun _ _ => rfl)
  | installPair venue table min firstPin secondPin cloexec =>
    exact settle_deferred world (fun _ _ => rfl)
  | reserveMin venue table min =>
    exact settle_deferred world (fun _ _ => rfl)
  | reserveDupMin venue table min =>
    exact settle_deferred world (fun _ _ => rfl)
  | reserveExact venue table fd =>
    exact settle_deferred world (fun _ _ => rfl)
  | cancelReservation venue reservation =>
    exact settle_deferred world (fun _ _ => rfl)
  | commitReservation venue reservation pin cloexec =>
    exact settle_deferred world (fun _ _ => rfl)
  | commitReservationFiltered venue reservation pin cloexec releaseHere =>
    exact absurd trivial plain
  | takeRetiredOfd => exact absurd rfl other

end FdCore
end Carrick
