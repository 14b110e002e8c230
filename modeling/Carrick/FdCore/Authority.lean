import Carrick.FdCore.Descriptions

namespace Carrick
namespace FdCore

open Foundation

/-!
# The descriptor authority

A core holds a fixed number of table records and the store of descriptions.
Every operation authenticates and locks the tables it touches; here it is one
step on the core, which keeps its effects when it refuses.

The venue answers three questions during a call: whether an extent resolves to
memory, whether its ceiling covers a descriptor number, and whether the lock of
a table was obtained.  The slots of a table are kept with its record, since
each extent belongs to one table at a time; the ceiling is not part of the
core.
-/

structure Extent where
  token : Nat
  capacity : Nat
  deriving DecidableEq, Repr

def Extent.empty : Extent := { token := 0, capacity := 0 }

structure Venue where
  resolves : Extent -> Bool
  covers : Nat -> Bool
  acquires : Nat -> Bool

/-- The extent gives storage of its capacity. -/
def Venue.provides (venue : Venue) (extent : Extent) : Bool :=
  extent.capacity = 0 || (venue.resolves extent && extent.capacity <= maxDescriptors)

inductive TableState where
  | free
  | live
  | retired
  deriving DecidableEq, Repr

structure TableRecord where
  state : TableState
  generation : Nat
  limit : Nat
  extent : Extent
  storage : TableStorage
  deriving DecidableEq, Repr

def TableRecord.withStorage (t : TableRecord) (storage : TableStorage) : TableRecord :=
  { t with storage := storage }

/-- The record once its storage was given back. -/
def TableRecord.emptied (t : TableRecord) : TableRecord :=
  { t with state := .free, extent := Extent.empty, storage := TableStorage.empty }

def TableRecord.initial : TableRecord :=
  { state := .free, generation := 0, limit := 0, extent := Extent.empty,
    storage := TableStorage.empty }

structure TableId where
  authority : Nat
  index : Nat
  generation : Nat
  deriving DecidableEq, Repr

structure OfdPin where
  authority : Nat
  key : OfdKey
  deriving DecidableEq, Repr

structure Core where
  identity : Nat
  tables : List TableRecord
  freeTables : List Nat
  retiredTables : List Nat
  store : OfdStore
  deriving DecidableEq, Repr

/-- A core of `count` tables after `initialize`. -/
def Core.initialized (identity count : Nat) : Core :=
  { identity := identity, tables := List.replicate count TableRecord.initial,
    freeTables := List.range count, retiredTables := [],
    store := { records := [], freeOfds := [], retiredOfds := [] } }

namespace Core

abbrev Action := Command Error Core

def tableAt (core : Core) (index : Nat) : TableRecord :=
  core.tables.getD index TableRecord.initial

def setTable (core : Core) (index : Nat) (record : TableRecord) : Core :=
  { core with tables := core.tables.set index record }

def onStore {α : Type} (action : OfdStore.Action α) : Action α :=
  Command.zoom Core.store (fun core store => { core with store := store }) action

def storageOf (index : Nat) : Action TableStorage :=
  Command.observe (fun core => (core.tableAt index).storage)

def editStorage (index : Nat) (change : TableStorage -> TableStorage) : Action Unit :=
  Command.edit (fun core =>
    core.setTable index
      ((core.tableAt index).withStorage (change (core.tableAt index).storage)))

def authenticate : Action Nat := do
  let identity ← Command.observe Core.identity
  Command.require (identity ≠ 0) .staleTable
  pure identity

/-- The record of a table in one of the states, locked if `acquires`. -/
def lockInStates (venue : Venue) (id : TableId) (states : List TableState) : Action TableRecord := do
  let identity ← authenticate
  Command.require (id.authority = identity) .staleTable
  let found ← Command.observe (fun core => core.tables[id.index]?)
  let record ← Command.demand found .staleTable
  Command.require (venue.acquires id.index) .contended
  Command.require (record.state ∈ states ∧ record.generation = id.generation) .staleTable
  Command.require (venue.provides record.extent) .badBacking
  pure record

def lock (venue : Venue) (id : TableId) : Action TableRecord :=
  lockInStates venue id [.live]

def cover (venue : Venue) (fd : Nat) : Action Unit :=
  Command.require (venue.covers fd) .badBacking

/-- The entry of a signed descriptor number. -/
def entryAt (storage : TableStorage) (fd : Int) : Option Entry :=
  if fd < 0 then none else storage.get fd.toNat

def allocateFd (t : TableRecord) (low : Nat) : Action Nat :=
  Command.ofExcept (allocate t.storage t.limit low)

/-! ## Tables -/

def popTable : Action Nat := do
  let top ← Command.observe (fun core => core.freeTables.head?)
  let index ← Command.demand top .noMemory
  let count ← Command.observe (fun core => core.tables.length)
  Command.require (index < count) .noMemory
  Command.edit (fun core => { core with freeTables := core.freeTables.tail })
  pure index

/-- A table whose generation is spent is never reused. -/
def pushTable (index : Nat) : Action Unit :=
  Command.edit (fun core =>
    if (core.tableAt index).generation < wordLimit - 1 then
      { core with freeTables := index :: core.freeTables }
    else core)

def publish (index limit : Nat) (extent : Extent) (storage : TableStorage) : Action TableId := do
  let identity ← Command.observe Core.identity
  let record ← Command.observe (fun core => core.tableAt index)
  Command.edit (fun core =>
    core.setTable index
      { state := .live, generation := record.generation + 1, limit := limit, extent := extent,
        storage := storage })
  pure { authority := identity, index := index, generation := record.generation + 1 }

def freeTable (index : Nat) : Action Unit :=
  Command.edit (fun core => core.setTable index (core.tableAt index).emptied)

def setLimit (venue : Venue) (table : TableId) (limit : Nat) : Action Unit := do
  Command.require (limit <= maxDescriptors) .invalidArgument
  let t ← lock venue table
  Command.edit (fun core => core.setTable table.index { t with limit := limit })

/-! ## Opening and duplicating -/

def install (index fd : Nat) (entry : Entry) : Action Unit :=
  editStorage index (fun storage => storage.install fd entry)

def openDescriptor (venue : Venue) (table : TableId) (min : Int) (description : Description)
    (cloexec : Bool) : Action Int := do
  Command.require (0 <= min) .invalidArgument
  let t ← lock venue table
  let fd ← allocateFd t min.toNat
  cover venue fd
  let ofd ← onStore (OfdStore.allocOfd description)
  install table.index fd { ofd := ofd, cloexec := cloexec }
  pure fd

def duplicateMin (venue : Venue) (table : TableId) (t : TableRecord) (old : Int) (min : Nat)
    (cloexec : Bool) : Action Int := do
  let entry ← Command.demand (entryAt t.storage old) .badFd
  let fd ← allocateFd t min
  cover venue fd
  onStore (OfdStore.retain entry.ofd .ref)
  install table.index fd { ofd := entry.ofd, cloexec := cloexec }
  pure fd

def dup (venue : Venue) (table : TableId) (old : Int) : Action Int := do
  let t ← lock venue table
  duplicateMin venue table t old 0 false

def dupfd (venue : Venue) (table : TableId) (old min : Int) (cloexec : Bool) : Action Int := do
  let t ← lock venue table
  let _ ← Command.demand (entryAt t.storage old) .badFd
  Command.require (0 <= min ∧ min.toNat < t.limit) .invalidArgument
  duplicateMin venue table t old min.toNat cloexec

/-! ## Closing and replacing

The plain and the filtered operations differ in how they drop the hold of a
slot; `drop` is that step and `nothing` its answer where no slot was open. -/

section Dropping

variable {ρ : Type} (drop : Nat -> OfdStore.Action ρ) (nothing : ρ)

def closeLockedWith (index : Nat) (fd : Int) : Action ρ := do
  let storage ← storageOf index
  let entry ← Command.demand (entryAt storage fd) .badFd
  editStorage index (fun storage => storage.vacate fd.toNat)
  onStore (drop entry.ofd)

def replaceExactWith (venue : Venue) (table : TableId) (t : TableRecord) (ofd : Nat) (new : Int)
    (cloexec : Bool) : Action ρ := do
  Command.require (0 <= new ∧ new.toNat < t.limit) .badFd
  Command.require (new.toNat < t.storage.capacity) (.needsBacking (new.toNat + 1))
  Command.require (!t.storage.reserved new.toNat) .busy
  cover venue new.toNat
  onStore (OfdStore.retain ofd .ref)
  let closed ← Command.attempt (closeLockedWith drop table.index new)
  match closed with
  | .ok released => do
      install table.index new.toNat { ofd := ofd, cloexec := cloexec }
      pure released
  | .error .badFd => do
      install table.index new.toNat { ofd := ofd, cloexec := cloexec }
      pure nothing
  | .error reason => Command.refuse reason

def dup2With (venue : Venue) (table : TableId) (old new : Int) : Action ρ := do
  let t ← lock venue table
  let entry ← Command.demand (entryAt t.storage old) .badFd
  if old = new then pure nothing
  else replaceExactWith drop nothing venue table t entry.ofd new false

def dup3With (venue : Venue) (table : TableId) (old new : Int) (cloexec : Bool) : Action ρ := do
  Command.require (old ≠ new) .invalidArgument
  let t ← lock venue table
  let entry ← Command.demand (entryAt t.storage old) .badFd
  replaceExactWith drop nothing venue table t entry.ofd new cloexec

def closeWith (venue : Venue) (table : TableId) (fd : Int) : Action ρ := do
  let _ ← lock venue table
  closeLockedWith drop table.index fd

end Dropping

/-- The plain step: the last reference is delivered. -/
def dropRef (ofd : Nat) : OfdStore.Action (Option Release) :=
  OfdStore.dropHold ofd .ref

/-- The filtered step: the last reference may wait for the host. -/
def dropRefFiltered (releaseHere : Description -> Bool) (ofd : Nat) :
    OfdStore.Action DeferredRelease :=
  OfdStore.dropHoldFiltered ofd .ref releaseHere

def closeLocked (index : Nat) (fd : Int) : Action (Option Release) :=
  closeLockedWith dropRef index fd

def dup2 (venue : Venue) (table : TableId) (old new : Int) : Action (Option Release) :=
  dup2With dropRef none venue table old new

def dup3 (venue : Venue) (table : TableId) (old new : Int) (cloexec : Bool) :
    Action (Option Release) :=
  dup3With dropRef none venue table old new cloexec

def close (venue : Venue) (table : TableId) (fd : Int) : Action (Option Release) :=
  closeWith dropRef venue table fd

def dup2Filtered (venue : Venue) (table : TableId) (old new : Int)
    (releaseHere : Description -> Bool) : Action DeferredRelease :=
  dup2With (dropRefFiltered releaseHere) .none venue table old new

def dup3Filtered (venue : Venue) (table : TableId) (old new : Int) (cloexec : Bool)
    (releaseHere : Description -> Bool) : Action DeferredRelease :=
  dup3With (dropRefFiltered releaseHere) .none venue table old new cloexec

def closeFiltered (venue : Venue) (table : TableId) (fd : Int)
    (releaseHere : Description -> Bool) : Action DeferredRelease :=
  closeWith (dropRefFiltered releaseHere) venue table fd

/-! ## Sweeping a table -/

/-- Close each of the slots that `selects` chooses, and gather the releases. -/
def closeSelected (index : Nat) (selects : Entry -> Action Bool) (fds : List Nat) :
    Action (List Release) :=
  Command.collect (fun fd => do
    let storage ← storageOf index
    match storage.get fd with
    | none => pure []
    | some entry => do
        let chosen ← selects entry
        if chosen then do
          let released ← closeLocked index fd
          pure released.toList
        else pure []) fds

def markCloexec (index : Nat) (fds : List Nat) : Action (List Release) :=
  Command.collect (fun fd => do
    let storage ← storageOf index
    match storage.get fd with
    | none => pure []
    | some entry => do
        editStorage index (fun storage => storage.update fd { entry with cloexec := true })
        pure []) fds

def closeRange (venue : Venue) (table : TableId) (first last : Nat) (cloexec : Bool) :
    Action (List Release) := do
  Command.require (first <= last) .invalidArgument
  let t ← lock venue table
  let fds := List.range' first (min (last + 1) t.storage.capacity - first)
  if cloexec then markCloexec table.index fds
  else closeSelected table.index (fun _ => pure true) fds

def exec (venue : Venue) (table : TableId) : Action (List Release) := do
  let t ← lock venue table
  closeSelected table.index (fun entry => pure entry.cloexec) (List.range t.storage.capacity)

def destroyTableInStates (venue : Venue) (table : TableId) (states : List TableState) :
    Action (Extent × List Release) := do
  let t ← lockInStates venue table states
  let released ← closeSelected table.index (fun _ => pure true) (List.range t.storage.capacity)
  freeTable table.index
  pushTable table.index
  pure (t.extent, released)

def destroyTable (venue : Venue) (table : TableId) : Action (Extent × List Release) :=
  destroyTableInStates venue table [.live]

def retireTable (venue : Venue) (table : TableId) (releaseHere : Description -> Bool) :
    Action (List Release) := do
  let t ← lock venue table
  Command.edit (fun core => core.setTable table.index { t with state := .retired })
  let result ← Command.attempt (closeSelected table.index
    (fun entry => do
      let record ← onStore (OfdStore.ofd entry.ofd)
      pure (releaseHere record.description)) (List.range t.storage.capacity))
  Command.edit (fun core => { core with retiredTables := table.index :: core.retiredTables })
  Command.ofExcept result

def takeRetiredTable : Action (Option TableId) := do
  let top ← Command.observe (fun core => core.retiredTables.head?)
  match top with
  | none => pure none
  | some index => do
      let found ← Command.observe (fun core => core.tables[index]?)
      match found with
      | none => pure none
      | some record => do
          Command.edit (fun core => { core with retiredTables := core.retiredTables.tail })
          let identity ← Command.observe Core.identity
          pure (some { authority := identity, index := index, generation := record.generation })

/-- `finish` of the receipt of a retired table. -/
def finishRetired (venue : Venue) (receipt : TableId) : Action (Extent × List Release) :=
  destroyTableInStates venue receipt [.retired]

/-- A receipt dropped without finishing goes back to the queue. -/
def returnRetired (receipt : TableId) : Action Unit :=
  Command.edit (fun core => { core with retiredTables := receipt.index :: core.retiredTables })

/-! ## Pins -/

def checkPin (pin : OfdPin) : Action Unit := do
  let found ← Command.observe (fun core => core.store.records[pin.key.index]?)
  let record ← Command.demand found .stalePin
  let identity ← authenticate
  Command.require
    (pin.authority = identity ∧ record.generation = pin.key.generation ∧
      Hold.pin.half record.holds ≠ 0) .stalePin

/-- One step of the lock-free lookup: a finalized record under a settled slot
makes the code wait, which is a refusal here. -/
def pin (venue : Venue) (table : TableId) (fd : Int) : Action OfdPin := do
  let identity ← authenticate
  Command.require (table.authority = identity) .staleTable
  let found ← Command.observe (fun core => core.tables[table.index]?)
  let t ← Command.demand found .staleTable
  Command.require (t.state = .live ∧ t.generation = table.generation) .staleTable
  Command.require (venue.provides t.extent) .badBacking
  let entry ← Command.demand (entryAt t.storage fd) .badFd
  let record ← onStore (OfdStore.ofd entry.ofd)
  let retained ← onStore (OfdStore.retainUnlessFinal entry.ofd .pin)
  Command.require retained .contended
  pure { authority := identity, key := { index := entry.ofd, generation := record.generation } }

def createPinned (description : Description) : Action OfdPin := do
  let identity ← authenticate
  let index ← onStore (OfdStore.allocOfd description)
  let record ← onStore (OfdStore.ofd index)
  onStore (OfdStore.setRecord index { record with holds := 1 })
  pure { authority := identity, key := { index := index, generation := record.generation } }

def unpin (pin : OfdPin) : Action (Option Release) := do
  checkPin pin
  onStore (OfdStore.dropHold pin.key.index .pin)

def unpinFiltered (pin : OfdPin) (releaseHere : Description -> Bool) : Action DeferredRelease := do
  checkPin pin
  onStore (OfdStore.dropHoldFiltered pin.key.index .pin releaseHere)

def installPin (venue : Venue) (table : TableId) (target : Int) (pin : OfdPin) (cloexec : Bool) :
    Action Unit := do
  checkPin pin
  let t ← lock venue table
  Command.require (0 <= target ∧ target.toNat < t.limit) .badFd
  Command.require (target.toNat < t.storage.capacity) (.needsBacking (target.toNat + 1))
  Command.require (!t.storage.reserved target.toNat) .busy
  Command.require (t.storage.get target.toNat).isNone .tooManyFiles
  cover venue target.toNat
  onStore (OfdStore.retain pin.key.index .ref)
  install table.index target.toNat { ofd := pin.key.index, cloexec := cloexec }

def replacePin (venue : Venue) (table : TableId) (target : Int) (pin : OfdPin) (cloexec : Bool) :
    Action (Option Release) := do
  checkPin pin
  let t ← lock venue table
  replaceExactWith dropRef none venue table t pin.key.index target cloexec

def installPair (venue : Venue) (table : TableId) (min : Int) (firstPin secondPin : OfdPin)
    (cloexec : Bool) : Action (Int × Int) := do
  let t ← lock venue table
  Command.require (0 <= min) .invalidArgument
  checkPin firstPin
  checkPin secondPin
  let first ← allocateFd t min.toNat
  let second ← allocateFd t (first + 1)
  cover venue first
  cover venue second
  onStore (OfdStore.retain firstPin.key.index .ref)
  let kept ← Command.attempt (onStore (OfdStore.retain secondPin.key.index .ref))
  match kept with
  | .error reason => do
      let _ ← onStore (OfdStore.dropHold firstPin.key.index .ref)
      Command.refuse reason
  | .ok _ => do
      install table.index first { ofd := firstPin.key.index, cloexec := cloexec }
      install table.index second { ofd := secondPin.key.index, cloexec := cloexec }
      pure (first, second)

/-! ## Reservations -/

structure SlotReservation where
  table : TableId
  fd : Nat
  deriving DecidableEq, Repr

def reserveSlot (index fd : Nat) : Action Unit :=
  editStorage index (fun storage => storage.reserve fd)

def reserveMin (venue : Venue) (table : TableId) (min : Int) : Action SlotReservation := do
  Command.require (0 <= min) .invalidArgument
  let t ← lock venue table
  let fd ← allocateFd t min.toNat
  reserveSlot table.index fd
  pure { table := table, fd := fd }

def reserveDupMin (venue : Venue) (table : TableId) (min : Int) : Action SlotReservation := do
  let t ← lock venue table
  Command.require (0 <= min ∧ min.toNat < t.limit) .invalidArgument
  let fd ← allocateFd t min.toNat
  reserveSlot table.index fd
  pure { table := table, fd := fd }

def reserveExact (venue : Venue) (table : TableId) (fd : Int) : Action SlotReservation := do
  let t ← lock venue table
  Command.require (0 <= fd ∧ fd.toNat < t.limit) .badFd
  Command.require (fd.toNat < t.storage.capacity) (.needsBacking (fd.toNat + 1))
  Command.require (!t.storage.reserved fd.toNat) .busy
  reserveSlot table.index fd.toNat
  pure { table := table, fd := fd.toNat }

def cancelReservation (venue : Venue) (reservation : SlotReservation) : Action Unit := do
  let t ← lock venue reservation.table
  Command.require (t.storage.reserved reservation.fd) .invalidArgument
  editStorage reservation.table.index (fun storage => storage.unreserve reservation.fd)

/-- Publish a prepared description and consume the claim. -/
def commitReservationWith {ρ : Type} (drop : Nat -> OfdStore.Action ρ) (nothing : ρ) (venue : Venue)
    (reservation : SlotReservation) (pin : OfdPin) (cloexec : Bool) : Action ρ := do
  let t ← lock venue reservation.table
  checkPin pin
  Command.require (t.storage.reserved reservation.fd) .invalidArgument
  cover venue reservation.fd
  onStore (OfdStore.retain pin.key.index .ref)
  install reservation.table.index reservation.fd { ofd := pin.key.index, cloexec := cloexec }
  editStorage reservation.table.index (fun storage => storage.unreserve reservation.fd)
  match t.storage.get reservation.fd with
  | some old => onStore (drop old.ofd)
  | none => pure nothing

def commitReservation (venue : Venue) (reservation : SlotReservation) (pin : OfdPin)
    (cloexec : Bool) : Action (Option Release) :=
  commitReservationWith dropRef none venue reservation pin cloexec

def commitReservationFiltered (venue : Venue) (reservation : SlotReservation) (pin : OfdPin)
    (cloexec : Bool) (releaseHere : Description -> Bool) : Action DeferredRelease :=
  commitReservationWith (dropRefFiltered releaseHere) .none venue reservation pin cloexec

end Core

/-! ## Operations that take an extent

The caller's extent is part of the state: it is consumed on success only. -/

structure Custody where
  core : Core
  extent : Extent
  deriving DecidableEq, Repr

namespace Custody

abbrev Action := Command Error Custody

def onCore {α : Type} (action : Core.Action α) : Action α :=
  Command.zoom Custody.core (fun custody core => { custody with core := core }) action

def createTable (venue : Venue) (limit : Nat) : Action TableId := do
  let _ ← onCore Core.authenticate
  Command.require (limit <= maxDescriptors) .invalidArgument
  let extent ← Command.observe Custody.extent
  Command.require (venue.provides extent) .badBacking
  let index ← onCore Core.popTable
  if venue.acquires index then do
    let id ← onCore (Core.publish index limit extent (TableStorage.cleared extent.capacity))
    Command.edit (fun custody => { custody with extent := Extent.empty })
    pure id
  else do
    onCore (Core.pushTable index)
    Command.refuse .contended

/-- The slots with room for `capacity` of them. -/
def widen (entries : List DescriptorSlot) (capacity : Nat) : TableStorage :=
  TableStorage.rebuild
    (entries ++ List.replicate (capacity - entries.length) DescriptorSlot.vacant)

def growTable (venue : Venue) (table : TableId) : Action Unit := do
  let t ← onCore (Core.lock venue table)
  let extent ← Command.observe Custody.extent
  Command.require (t.storage.capacity <= extent.capacity) .invalidArgument
  Command.require (venue.provides extent) .badBacking
  onCore (Command.edit (fun core =>
    core.setTable table.index
      { t with extent := extent, storage := widen t.storage.entries extent.capacity }))
  Command.edit (fun custody => { custody with extent := t.extent })

/-- Drop the reference of each entry, whatever it answers. -/
def undoRetains : List Entry -> OfdStore.Action Unit
  | [] => pure ()
  | entry :: rest => do
      let _ ← Command.attempt (OfdStore.dropHold entry.ofd .ref)
      undoRetains rest

/-- Retain the description of every slot and copy its entry; a refusal undoes
the retains of the slots before. -/
def retainSlots : List Entry -> List DescriptorSlot -> OfdStore.Action (List DescriptorSlot)
  | _, [] => pure []
  | prior, slot :: rest =>
    match slot.entry with
    | none => do
        let copied ← retainSlots prior rest
        pure (DescriptorSlot.vacant :: copied)
    | some entry => do
        let kept ← Command.attempt (OfdStore.retain entry.ofd .ref)
        match kept with
        | .error reason => do
            undoRetains prior
            Command.refuse reason
        | .ok _ => do
            let copied ← retainSlots (prior ++ [entry]) rest
            pure ({ entry := some entry, reserved := false } :: copied)

/-- Drop the reference of each slot. -/
def dropSlots : List DescriptorSlot -> OfdStore.Action Unit
  | [] => pure ()
  | slot :: rest =>
    match slot.entry with
    | none => dropSlots rest
    | some entry => do
        let _ ← OfdStore.dropHold entry.ofd .ref
        dropSlots rest

/-- Copy a table and offer the copy to the publisher. -/
def forkPublished (venue : Venue) (parent : TableId) (publisher : TableId -> Except Error Unit) :
    Action TableId := do
  let p ← onCore (Core.lock venue parent)
  let extent ← Command.observe Custody.extent
  Command.require (p.storage.capacity <= extent.capacity) (.needsBacking p.storage.capacity)
  Command.require (venue.provides extent) .badBacking
  let index ← onCore Core.popTable
  if venue.acquires index then do
    let kept ← Command.attempt (onCore (Core.onStore (retainSlots [] p.storage.entries)))
    match kept with
    | .error reason => do
        onCore (Core.pushTable index)
        Command.refuse reason
    | .ok slots => do
        let id ← onCore (Core.publish index p.limit extent (widen slots extent.capacity))
        Command.edit (fun custody => { custody with extent := Extent.empty })
        match publisher id with
        | .ok _ => pure id
        | .error reason => do
            onCore (Core.onStore (dropSlots (widen slots extent.capacity).entries))
            Command.edit (fun custody =>
              { custody with extent := (custody.core.tableAt index).extent })
            onCore (Core.freeTable index)
            onCore (Core.pushTable index)
            Command.refuse reason
  else do
    onCore (Core.pushTable index)
    Command.refuse .contended

end Custody

end FdCore
end Carrick
