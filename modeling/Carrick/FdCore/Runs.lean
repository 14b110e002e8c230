import Carrick.FdCore.Extents
import Carrick.Foundation.Run

namespace Carrick
namespace FdCore

open Foundation

/-!
# Runs of the authority

A world is a core together with the pins that are outstanding and the ledger of
what was allocated and delivered.  Each call is one step; the notes it makes in
the world are read off its answer.  The one thing asked of the callers is that a
pin is given back by its owner, once: the code's pins are not copied.
-/

structure World where
  core : Core
  pinned : List OfdKey
  ledger : Ledger

inductive Call where
  | publishOfds (provided : Bool) (count : Nat)
  | createTable (venue : Venue) (extent : Extent) (limit : Nat)
  | growTable (venue : Venue) (extent : Extent) (table : TableId)
  | forkPublished (venue : Venue) (extent : Extent) (parent : TableId)
      (publisher : TableId -> Except Error Unit)
  | setLimit (venue : Venue) (table : TableId) (limit : Nat)
  | openDescriptor (venue : Venue) (table : TableId) (min : Int) (description : Description)
      (cloexec : Bool)
  | dup (venue : Venue) (table : TableId) (old : Int)
  | dupfd (venue : Venue) (table : TableId) (old min : Int) (cloexec : Bool)
  | dup2 (venue : Venue) (table : TableId) (old new : Int)
  | dup3 (venue : Venue) (table : TableId) (old new : Int) (cloexec : Bool)
  | close (venue : Venue) (table : TableId) (fd : Int)
  | dup2Filtered (venue : Venue) (table : TableId) (old new : Int)
      (releaseHere : Description -> Bool)
  | dup3Filtered (venue : Venue) (table : TableId) (old new : Int) (cloexec : Bool)
      (releaseHere : Description -> Bool)
  | closeFiltered (venue : Venue) (table : TableId) (fd : Int) (releaseHere : Description -> Bool)
  | closeRange (venue : Venue) (table : TableId) (first last : Nat) (cloexec : Bool)
  | exec (venue : Venue) (table : TableId)
  | destroyTable (venue : Venue) (table : TableId)
  | retireTable (venue : Venue) (table : TableId) (releaseHere : Description -> Bool)
  | takeRetiredTable
  | finishRetired (venue : Venue) (receipt : TableId)
  | returnRetired (receipt : TableId)
  | pin (venue : Venue) (table : TableId) (fd : Int)
  | createPinned (description : Description)
  | unpin (pin : OfdPin)
  | unpinFiltered (pin : OfdPin) (releaseHere : Description -> Bool)
  | installPin (venue : Venue) (table : TableId) (target : Int) (pin : OfdPin) (cloexec : Bool)
  | replacePin (venue : Venue) (table : TableId) (target : Int) (pin : OfdPin) (cloexec : Bool)
  | installPair (venue : Venue) (table : TableId) (min : Int) (firstPin secondPin : OfdPin)
      (cloexec : Bool)
  | reserveMin (venue : Venue) (table : TableId) (min : Int)
  | reserveDupMin (venue : Venue) (table : TableId) (min : Int)
  | reserveExact (venue : Venue) (table : TableId) (fd : Int)
  | cancelReservation (venue : Venue) (reservation : Core.SlotReservation)
  | commitReservation (venue : Venue) (reservation : Core.SlotReservation) (pin : OfdPin)
      (cloexec : Bool)
  | commitReservationFiltered (venue : Venue) (reservation : Core.SlotReservation) (pin : OfdPin)
      (cloexec : Bool) (releaseHere : Description -> Bool)
  | takeRetiredOfd

namespace World

/-- The world after a call: the core it left, with a note of the answer. -/
def settle {α : Type} (world : World) (outcome : Except Error α × Core)
    (note : α -> World -> World) : World :=
  match outcome with
  | (.ok answer, core) => note answer { world with core := core }
  | (.error _, core) => { world with core := core }

def unnoted {α : Type} (_ : α) (world : World) : World := world

def delivering (world : World) (releases : List Release) : World :=
  { world with ledger := world.ledger.deliver releases }

def pinning (world : World) (key : OfdKey) : World :=
  { world with pinned := key :: world.pinned }

def unpinning (world : World) (key : OfdKey) : World :=
  { world with pinned := world.pinned.erase key }

def allocating (world : World) (next : Option OfdKey) (description : Description) : World :=
  match next with
  | none => world
  | some key => { world with ledger := world.ledger.allocate ⟨key, description⟩ }

/-- The outcome of an operation that takes an extent, for the core. -/
def ofCustody {α : Type} (outcome : Except Error α × Custody) : Except Error α × Core :=
  (outcome.1, outcome.2.core)

def perform (world : World) : Call -> World
  | .publishOfds provided count =>
    world.settle (Core.onStore (OfdStore.publishOfds provided count) world.core) unnoted
  | .createTable venue extent limit =>
    world.settle (ofCustody (Custody.createTable venue limit ⟨world.core, extent⟩)) unnoted
  | .growTable venue extent table =>
    world.settle (ofCustody (Custody.growTable venue table ⟨world.core, extent⟩)) unnoted
  | .forkPublished venue extent parent publisher =>
    world.settle
      (ofCustody (Custody.forkPublished venue parent publisher ⟨world.core, extent⟩)) unnoted
  | .setLimit venue table limit =>
    world.settle (Core.setLimit venue table limit world.core) unnoted
  | .openDescriptor venue table min description cloexec =>
    world.settle (Core.openDescriptor venue table min description cloexec world.core)
      (fun _ after => after.allocating world.core.store.nextKey description)
  | .dup venue table old => world.settle (Core.dup venue table old world.core) unnoted
  | .dupfd venue table old min cloexec =>
    world.settle (Core.dupfd venue table old min cloexec world.core) unnoted
  | .dup2 venue table old new =>
    world.settle (Core.dup2 venue table old new world.core)
      (fun answer after => after.delivering answer.toList)
  | .dup3 venue table old new cloexec =>
    world.settle (Core.dup3 venue table old new cloexec world.core)
      (fun answer after => after.delivering answer.toList)
  | .close venue table fd =>
    world.settle (Core.close venue table fd world.core)
      (fun answer after => after.delivering answer.toList)
  | .dup2Filtered venue table old new releaseHere =>
    world.settle (Core.dup2Filtered venue table old new releaseHere world.core)
      (fun answer after => after.delivering answer.delivered)
  | .dup3Filtered venue table old new cloexec releaseHere =>
    world.settle (Core.dup3Filtered venue table old new cloexec releaseHere world.core)
      (fun answer after => after.delivering answer.delivered)
  | .closeFiltered venue table fd releaseHere =>
    world.settle (Core.closeFiltered venue table fd releaseHere world.core)
      (fun answer after => after.delivering answer.delivered)
  | .closeRange venue table first last cloexec =>
    world.settle (Core.closeRange venue table first last cloexec world.core)
      (fun answer after => after.delivering answer)
  | .exec venue table =>
    world.settle (Core.exec venue table world.core) (fun answer after => after.delivering answer)
  | .destroyTable venue table =>
    world.settle (Core.destroyTable venue table world.core)
      (fun answer after => after.delivering answer.2)
  | .retireTable venue table releaseHere =>
    world.settle (Core.retireTable venue table releaseHere world.core)
      (fun answer after => after.delivering answer)
  | .takeRetiredTable => world.settle (Core.takeRetiredTable world.core) unnoted
  | .finishRetired venue receipt =>
    world.settle (Core.finishRetired venue receipt world.core)
      (fun answer after => after.delivering answer.2)
  | .returnRetired receipt => world.settle (Core.returnRetired receipt world.core) unnoted
  | .pin venue table fd =>
    world.settle (Core.pin venue table fd world.core)
      (fun answer after => after.pinning answer.key)
  | .createPinned description =>
    world.settle (Core.createPinned description world.core)
      (fun answer after =>
        (after.pinning answer.key).allocating (some answer.key) description)
  | .unpin pin =>
    world.settle (Core.unpin pin world.core)
      (fun answer after => (after.unpinning pin.key).delivering answer.toList)
  | .unpinFiltered pin releaseHere =>
    world.settle (Core.unpinFiltered pin releaseHere world.core)
      (fun answer after => (after.unpinning pin.key).delivering answer.delivered)
  | .installPin venue table target pin cloexec =>
    world.settle (Core.installPin venue table target pin cloexec world.core) unnoted
  | .replacePin venue table target pin cloexec =>
    world.settle (Core.replacePin venue table target pin cloexec world.core)
      (fun answer after => after.delivering answer.toList)
  | .installPair venue table min firstPin secondPin cloexec =>
    world.settle (Core.installPair venue table min firstPin secondPin cloexec world.core) unnoted
  | .reserveMin venue table min =>
    world.settle (Core.reserveMin venue table min world.core) unnoted
  | .reserveDupMin venue table min =>
    world.settle (Core.reserveDupMin venue table min world.core) unnoted
  | .reserveExact venue table fd =>
    world.settle (Core.reserveExact venue table fd world.core) unnoted
  | .cancelReservation venue reservation =>
    world.settle (Core.cancelReservation venue reservation world.core) unnoted
  | .commitReservation venue reservation pin cloexec =>
    world.settle (Core.commitReservation venue reservation pin cloexec world.core)
      (fun answer after => after.delivering answer.toList)
  | .commitReservationFiltered venue reservation pin cloexec releaseHere =>
    world.settle
      (Core.commitReservationFiltered venue reservation pin cloexec releaseHere world.core)
      (fun answer after => after.delivering answer.delivered)
  | .takeRetiredOfd =>
    world.settle (Core.onStore OfdStore.takeRetiredOfd world.core)
      (fun answer after => after.delivering answer.toList)

/-- A pin is given back by its owner. -/
def Permits (world : World) : Call -> Prop
  | .unpin pin => pin.authority = world.core.identity ∧ pin.key ∈ world.pinned
  | .unpinFiltered pin _ => pin.authority = world.core.identity ∧ pin.key ∈ world.pinned
  | _ => True

/-- A world after `initialize`. -/
def Starts (world : World) : Prop :=
  ∃ identity count, identity ≠ 0 ∧
    world = { core := Core.initialized identity count, pinned := [],
              ledger := { allocated := [], delivered := [] } }

def Steps (before : World) (call : Call) (after : World) : Prop :=
  before.Permits call ∧ after = before.perform call

end World

/-! ## Every call keeps the accounts -/

/-- The accounts of a world in order. -/
structure InOrder (world : World) : Prop where
  named : world.core.identity ≠ 0
  sound : Sound world.core.identity world.core world.pinned world.ledger

theorem initialized_sound (identity count : Nat) :
    Sound identity (Core.initialized identity count) [] { allocated := [], delivered := [] } := by
  have tables : ∀ (index : Nat) (t : TableRecord),
      (Core.initialized identity count).tables[index]? = some t -> t = TableRecord.initial := by
    intro index t there
    have there : (List.replicate count TableRecord.initial)[index]? = some t := there
    rw [List.getElem?_replicate] at there
    split_ifs at there
    exact (Option.some.inj there).symm
  refine ⟨⟨rfl, ?_, ?_, ?_, List.nodup_range⟩, ⟨?_, ?_, List.nodup_nil, List.nodup_nil,
    List.nodup_nil, List.nodup_nil, ?_⟩⟩
  · intro index t there
    rw [tables index t there]
    exact empty_consistent
  · intro index t there _
    rw [tables index t there]
    exact ⟨rfl, rfl⟩
  · intro index listed
    have inside : index < count := List.mem_range.mp listed
    refine ⟨TableRecord.initial, ?_, rfl⟩
    show (List.replicate count TableRecord.initial)[index]? = _
    rw [List.getElem?_replicate, if_pos inside]
  · intro index record there
    cases there
  · intro index _
    refine ⟨?_, rfl, List.not_mem_nil, List.not_mem_nil, fun _ => List.not_mem_nil,
      fun _ => List.not_mem_nil⟩
    refine tally_eq_zero ?_
    intro t listed
    rcases List.getElem?_of_mem listed with ⟨place, there⟩
    rw [tables place t there]
    rfl
  · intro release wrong
    cases wrong

/-- What a call leaves behind: the accounts in order, and in the ledger at most
one new incarnation or releases of records that were held; `taking` admits the
other releases, of the call that takes a retired description. -/
structure Kept (taking : Prop) (before after : World) : Prop where
  inOrder : InOrder after
  older : ∀ release ∈ before.ledger.allocated, release ∈ after.ledger.allocated
  released : ∀ release ∈ after.ledger.delivered,
    release ∈ before.ledger.delivered ∨
      release ∈ before.ledger.allocated ∧
        (taking ∨ ∃ record, before.core.store.records[release.key.index]? = some record ∧
          record.holds ≠ 0)

section Preservation

variable {world : World} {taking : Prop} {α : Type}

variable {after : Core} {pinned : List OfdKey}

theorem InOrder.of_sound (inOrder : InOrder world) {ledger : Ledger}
    (sound : Sound world.core.identity after pinned ledger) :
    InOrder ⟨after, pinned, ledger⟩ := by
  have identity := sound.tables.identity
  refine ⟨?_, ?_⟩
  · show after.identity ≠ 0
    rw [identity]
    exact inOrder.named
  · show Sound after.identity after pinned ledger
    rw [identity]
    exact sound

theorem Kept.silent {after : World} (inOrder : InOrder after)
    (older : ∀ release ∈ world.ledger.allocated, release ∈ after.ledger.allocated)
    (same : after.ledger.delivered = world.ledger.delivered) : Kept taking world after :=
  ⟨inOrder, older, fun _ listed => .inl (same ▸ listed)⟩

theorem Kept.refl (inOrder : InOrder world) : Kept taking world world :=
  Kept.silent inOrder (fun _ listed => listed) rfl

variable {action : Core.Action α}

theorem settle_kept (inOrder : InOrder world) {good : α -> Core -> Prop}
    {note : α -> World -> World}
    (settles : Command.Ends (Settles world.core good) action world.core)
    (noted : ∀ answer after, good answer after -> Kept taking world (note answer { world
      with core := after })) :
    Kept taking world (world.settle (action world.core) note) := by
  cases ran : action world.core with
  | mk outcome after =>
    cases outcome with
    | error reason =>
      have same : after = world.core := settles.of_eq ran
      rw [same]
      exact Kept.refl inOrder
    | ok answer => exact noted answer after (settles.of_eq ran)

/-- A call without a note keeps the accounts in order if its core does. -/
theorem unnoted_kept (inOrder : InOrder world) {outcome : Except Error α × Core}
    (sound : Sound world.core.identity outcome.2 world.pinned world.ledger) :
    Kept taking world (world.settle outcome World.unnoted) := by
  have shape : world.settle outcome World.unnoted = ⟨outcome.2, world.pinned, world.ledger⟩ := by
    rcases outcome with ⟨answer | reason, after⟩
    · rfl
    · rfl
  rw [shape]
  exact Kept.silent (inOrder.of_sound sound) (fun _ listed => listed) rfl

theorem settle_unnoted (inOrder : InOrder world)
    (settles : Command.Ends (Settles world.core (fun _ after => Sound world.core.identity after
      world.pinned world.ledger)) action world.core) :
    Kept taking world (world.settle (action world.core) World.unnoted) :=
  settle_kept inOrder settles (fun _ _ sound =>
    Kept.silent (inOrder.of_sound sound) (fun _ listed => listed) rfl)

theorem delivered_kept {releases : List Release} (inOrder : InOrder world)
    (sound : Sound world.core.identity after pinned (world.ledger.deliver releases))
    (held : ∀ release ∈ releases, taking ∨ ∃ record,
      world.core.store.records[release.key.index]? = some record ∧ record.holds ≠ 0) :
    Kept taking world ⟨after, pinned, world.ledger.deliver releases⟩ := by
  refine ⟨inOrder.of_sound sound, fun _ listed => listed, ?_⟩
  intro release listed
  have allocated := sound.books.delivered_allocated release listed
  have listed : release ∈ releases.reverse ++ world.ledger.delivered := listed
  rcases List.mem_append.mp listed with new | old
  · exact .inr ⟨allocated, held release (List.mem_reverse.mp new)⟩
  · exact .inl old

theorem Sound.held_of_count {who : Nat} {core : Core} {ledger : Ledger}
    (sound : Sound who core pinned ledger) (hold : Hold) {index : Nat}
    (owed : 0 < (⟨core.naming, pinned⟩ : Counts).of hold index) :
    ∃ record, core.store.records[index]? = some record ∧ record.holds ≠ 0 := by
  rcases sound.books.record_of_count hold owed with ⟨record, there⟩
  refine ⟨record, there, ?_⟩
  intro unheld
  have word := (sound.books.account index record there).holds_eq
  rw [unheld] at word
  have none := Counts.of_word_eq_zero word.symm
  cases hold with
  | ref => exact absurd none.1 (Nat.pos_iff_ne_zero.mp owed)
  | pin => exact absurd none.2 (Nat.pos_iff_ne_zero.mp owed)

theorem settle_delivering (inOrder : InOrder world) {released : α -> List Release}
    (settles : Command.Ends (Settles world.core (fun answer after => Sound world.core.identity
      after world.pinned (world.ledger.deliver (released answer)) ∧ world.core.NamesAll (released
      answer))) action world.core) :
    Kept taking world (world.settle (action world.core)
      (fun answer after => after.delivering (released answer))) :=
  settle_kept inOrder settles (fun _ _ good => delivered_kept inOrder good.1
    (fun release listed => .inr (inOrder.sound.held_of_count .ref (good.2 release listed))))

theorem settle_unpinning (inOrder : InOrder world) {answer : α} {key : OfdKey}
    {released : α -> List Release} (outstanding : key ∈ world.pinned)
    (ran : action world.core = (.ok answer, after))
    (sound : Sound world.core.identity after (world.pinned.erase key) (world.ledger.deliver
      (released answer)))
    (same : ∀ release ∈ released answer, release.key.index = key.index) :
    Kept taking world (world.settle (action world.core)
      (fun answer after => (after.unpinning key).delivering (released answer))) := by
  have owed : (⟨world.core.naming, world.pinned⟩ : Counts).Owes .pin key := outstanding
  rw [ran]
  refine delivered_kept inOrder sound ?_
  intro release listed
  rw [same release listed]
  exact .inr (inOrder.sound.held_of_count .pin owed.of_pos)

theorem settle_custody (inOrder : InOrder world) {extent : Extent} {action : Custody.Action α}
    (concludes : Command.Ends (Concludes
      (RefusedSound world.core.identity world.pinned world.ledger ⟨world.core, extent⟩)
      (fun _ after => Sound world.core.identity after.core world.pinned world.ledger))
      action ⟨world.core, extent⟩) :
    Kept taking world
      (world.settle (World.ofCustody (action ⟨world.core, extent⟩)) World.unnoted) := by
  refine unnoted_kept inOrder ?_
  show Sound world.core.identity (action ⟨world.core, extent⟩).2.core world.pinned world.ledger
  cases ran : action ⟨world.core, extent⟩ with
  | mk outcome after =>
    cases outcome with
    | error reason =>
      have refused : RefusedSound _ _ _ _ after := concludes.of_eq ran
      exact refused.2
    | ok answer => exact concludes.of_eq ran

theorem perform_kept (inOrder : InOrder world) (call : Call) (permits : world.Permits call) :
    Kept (call = .takeRetiredOfd) world (world.perform call) := by
  have sound := inOrder.sound
  cases call with
  | publishOfds provided count =>
    refine unnoted_kept inOrder ⟨sound.tables.withStore _, ?_⟩
    exact publishOfds_spec sound.books provided count
  | createTable venue extent limit =>
    exact settle_custody inOrder (createTable_concludes sound venue limit)
  | growTable venue extent table =>
    exact settle_custody inOrder (growTable_concludes sound venue table)
  | forkPublished venue extent parent publisher =>
    exact settle_custody inOrder (forkPublished_concludes sound venue parent publisher)
  | setLimit venue table limit =>
    exact settle_unnoted inOrder (setLimit_settles sound venue table limit)
  | openDescriptor venue table min description cloexec =>
    unfold World.perform
    refine settle_kept inOrder
      (openDescriptor_settles sound venue table min description cloexec) ?_
    rintro _ after ⟨key, next, held⟩
    rw [next]
    exact Kept.silent (inOrder.of_sound held) (fun _ listed => List.mem_cons_of_mem _ listed) rfl
  | dup venue table old => exact settle_unnoted inOrder (dup_settles sound venue table old)
  | dupfd venue table old min cloexec =>
    exact settle_unnoted inOrder (dupfd_settles sound venue table old min cloexec)
  | dup2 venue table old new =>
    exact settle_delivering inOrder (dup2With_settles dropRef_drops rfl sound venue table old new)
  | dup3 venue table old new cloexec =>
    exact settle_delivering inOrder
      (dup3With_settles dropRef_drops rfl sound venue table old new cloexec)
  | close venue table fd =>
    exact settle_delivering inOrder (closeWith_settles dropRef_drops sound venue table fd)
  | dup2Filtered venue table old new releaseHere =>
    exact settle_delivering inOrder
      (dup2With_settles (dropRefFiltered_drops releaseHere) rfl sound venue table old new)
  | dup3Filtered venue table old new cloexec releaseHere =>
    exact settle_delivering inOrder
      (dup3With_settles (dropRefFiltered_drops releaseHere) rfl sound venue table old new cloexec)
  | closeFiltered venue table fd releaseHere =>
    exact settle_delivering inOrder
      (closeWith_settles (dropRefFiltered_drops releaseHere) sound venue table fd)
  | closeRange venue table first last cloexec =>
    exact settle_delivering inOrder (closeRange_settles sound venue table first last cloexec)
  | exec venue table => exact settle_delivering inOrder (exec_settles sound venue table)
  | destroyTable venue table =>
    exact settle_delivering inOrder (destroyTableInStates_settles sound venue table (by simp))
  | retireTable venue table releaseHere =>
    exact settle_delivering inOrder (retireTable_settles sound venue table releaseHere)
  | takeRetiredTable => exact settle_unnoted inOrder (takeRetiredTable_settles sound)
  | finishRetired venue receipt =>
    exact settle_delivering inOrder (destroyTableInStates_settles sound venue receipt (by simp))
  | returnRetired receipt =>
    unfold World.perform
    refine unnoted_kept inOrder ?_
    exact sound.withRetired _
  | pin venue table fd =>
    unfold World.perform
    refine settle_kept inOrder (pin_settles sound venue table fd) ?_
    rintro answer after ⟨_, held⟩
    exact Kept.silent (inOrder.of_sound held) (fun _ listed => listed) rfl
  | createPinned description =>
    unfold World.perform
    refine settle_kept inOrder (createPinned_settles sound description) ?_
    rintro answer after ⟨_, _, held⟩
    exact Kept.silent (inOrder.of_sound held) (fun _ listed => List.mem_cons_of_mem _ listed) rfl
  | unpin pin =>
    rcases unpin_returns sound inOrder.named permits.1 permits.2 with
      ⟨answer, after, ran, held, same⟩
    unfold World.perform
    exact settle_unpinning inOrder permits.2 ran held same
  | unpinFiltered pin releaseHere =>
    rcases unpinFiltered_returns sound inOrder.named permits.1 permits.2 releaseHere with
      ⟨answer, after, ran, held, same⟩
    unfold World.perform
    exact settle_unpinning inOrder permits.2 ran held same
  | installPin venue table target pin cloexec =>
    exact settle_unnoted inOrder (installPin_settles sound venue table target pin cloexec)
  | replacePin venue table target pin cloexec =>
    exact settle_delivering inOrder (replacePin_settles sound venue table target pin cloexec)
  | installPair venue table min firstPin secondPin cloexec =>
    exact settle_unnoted inOrder
      (installPair_settles sound venue table min firstPin secondPin cloexec)
  | reserveMin venue table min =>
    exact settle_unnoted inOrder (reserveMin_settles sound venue table min)
  | reserveDupMin venue table min =>
    exact settle_unnoted inOrder (reserveDupMin_settles sound venue table min)
  | reserveExact venue table fd =>
    exact settle_unnoted inOrder (reserveExact_settles sound venue table fd)
  | cancelReservation venue reservation =>
    exact settle_unnoted inOrder (cancelReservation_settles sound venue reservation)
  | commitReservation venue reservation pin cloexec =>
    exact settle_delivering inOrder
      (commitReservationWith_settles dropRef_drops rfl sound venue reservation pin cloexec)
  | commitReservationFiltered venue reservation pin cloexec releaseHere =>
    exact settle_delivering inOrder (commitReservationWith_settles
      (dropRefFiltered_drops releaseHere) rfl sound venue reservation pin cloexec)
  | takeRetiredOfd =>
    rcases takeRetiredOfd_spec sound.books with ⟨answer, store, ran, books⟩
    have settles : Command.Ends (Settles world.core (fun answer after =>
        Sound world.core.identity after world.pinned (world.ledger.deliver answer.toList)))
        (Core.onStore OfdStore.takeRetiredOfd) world.core :=
      Settles.returned (onStore_ok ran) ⟨sound.tables.withStore store, books⟩
    unfold World.perform
    exact settle_kept inOrder settles
      (fun _ _ held => delivered_kept inOrder held (fun _ _ => .inl rfl))

theorem run_inOrder {history : List Call} (run : Run World.Starts World.Steps history world) :
    InOrder world := by
  refine Run.state_invariant InOrder ?_ ?_ run
  · rintro start ⟨identity, count, named, rfl⟩
    exact ⟨named, initialized_sound identity count⟩
  · rintro before call after inOrder ⟨permits, rfl⟩
    exact (perform_kept inOrder call permits).inOrder

end Preservation

end FdCore
end Carrick
