import Carrick.FdCore.Storage
import Carrick.Foundation.Command
import Carrick.Foundation.Word

namespace Carrick
namespace FdCore

open Foundation

/-!
# Open file descriptions

The venue publishes records for open file descriptions and the core keeps the
free ones on a stack.  The `holds` word of a record packs two counts, the
descriptor slots that name it in the high half and the pins in the low half;
whoever moves the word to zero receives the description, or leaves it on the
retired stack for the host to take.  The generation advances when the record is
freed, so that a key names one incarnation.

The two stacks are linked through the records in the code; here they are lists,
top first.  A record is on at most one of them.
-/

inductive AccessMode where
  | readOnly
  | writeOnly
  | readWrite
  | path
  deriving DecidableEq, Repr

structure StatusFlags where
  append : Bool
  nonblock : Bool
  asynchronous : Bool
  direct : Bool
  noatime : Bool
  dsync : Bool
  sync : Bool
  immutable : Nat
  deriving DecidableEq, Repr

structure Description where
  backing : Nat
  offset : Nat
  access : AccessMode
  flags : StatusFlags
  deriving DecidableEq, Repr

/-- What zero-filled memory reads as. -/
def Description.zeroed : Description :=
  { backing := 0, offset := 0, access := .readOnly,
    flags := { append := false, nonblock := false, asynchronous := false, direct := false,
               noatime := false, dsync := false, sync := false, immutable := 0 } }

structure OfdRecord where
  generation : Nat
  holds : Nat
  description : Description
  deriving DecidableEq, Repr

def OfdRecord.zeroed : OfdRecord :=
  { generation := 0, holds := 0, description := Description.zeroed }

/-- One incarnation of a record.  A later description in the same record has
another generation. -/
structure OfdKey where
  index : Nat
  generation : Nat
  deriving DecidableEq, Repr

/-- A final release.  The code hands out the description alone; the key says
which incarnation it was, for the accounts to refer to. -/
structure Release where
  key : OfdKey
  description : Description
  deriving DecidableEq, Repr

inductive DeferredRelease where
  | none
  | now (release : Release)
  | deferred
  deriving DecidableEq, Repr

structure OfdStore where
  records : List OfdRecord
  freeOfds : List Nat
  retiredOfds : List Nat
  deriving DecidableEq, Repr

/-! ## The two halves of a hold word -/

/-- `REF`, one in the high half. -/
@[irreducible] def refUnit : Nat := 4294967296

/-- `FREE_INDEX`, all ones in one half. -/
@[irreducible] def freeIndex : Nat := 4294967295

theorem refUnit_eq : refUnit = freeIndex + 1 := by
  unfold refUnit freeIndex
  decide

theorem freeIndex_pos : 0 < freeIndex := by
  unfold freeIndex
  decide

inductive Hold where
  | ref
  | pin
  deriving DecidableEq, Repr

namespace Hold

def amount : Hold -> Nat
  | .ref => refUnit
  | .pin => 1

def half (hold : Hold) (holds : Nat) : Nat :=
  match hold with
  | .ref => holds / refUnit
  | .pin => holds % refUnit

end Hold

namespace OfdStore

abbrev Action := Command Error OfdStore

/-- The record of a published index. -/
def ofd (index : Nat) : Action OfdRecord := do
  let found ← Command.observe (fun store => store.records[index]?)
  Command.demand found .badBacking

/-- The store with one record replaced. -/
def put (store : OfdStore) (index : Nat) (record : OfdRecord) : OfdStore :=
  { store with records := store.records.set index record }

def setRecord (index : Nat) (record : OfdRecord) : Action Unit :=
  Command.edit (fun store => store.put index record)

/-- The venue has made `count` more records resolvable, zero-filled, if
`provided`. -/
def publishOfds (provided : Bool) (count : Nat) : Action Unit := do
  let first ← Command.observe (fun store => store.records.length)
  Command.require (first + count < freeIndex) .invalidArgument
  if count = 0 then pure ()
  else do
    Command.require provided .badBacking
    Command.edit (fun store =>
      { store with
        records := store.records ++ List.replicate count OfdRecord.zeroed,
        freeOfds := (List.range count).map (fun index => first + index) ++ store.freeOfds })

/-- The key of the next record to be allocated. -/
def nextKey (store : OfdStore) : Option OfdKey :=
  match store.freeOfds with
  | [] => none
  | index :: _ =>
    store.records[index]?.map (fun record => { index := index, generation := record.generation })

def allocOfd (description : Description) : Action Nat := do
  let next ← Command.observe nextKey
  let key ← Command.demand next .needsOfds
  Command.edit (fun store => { store with freeOfds := store.freeOfds.tail })
  setRecord key.index
    { generation := key.generation, holds := refUnit, description := description }
  pure key.index

def freeOfd (index : Nat) : Action Unit := do
  let record ← ofd index
  setRecord index { record with generation := (record.generation + 1) % wordLimit }
  if record.generation < wordLimit - 2 then
    Command.edit (fun store => { store with freeOfds := index :: store.freeOfds })
  else pure ()

def retain (index : Nat) (hold : Hold) : Action Unit := do
  let record ← ofd index
  Command.require (record.holds ≠ 0 ∧ hold.half record.holds ≠ freeIndex) .noMemory
  setRecord index { record with holds := record.holds + hold.amount }

/-- `retain` that tells a finalized record from a saturated one. -/
def retainUnlessFinal (index : Nat) (hold : Hold) : Action Bool := do
  let record ← ofd index
  if record.holds = 0 then pure false
  else do
    Command.require (hold.half record.holds ≠ freeIndex) .noMemory
    setRecord index { record with holds := record.holds + hold.amount }
    pure true

def dropHold (index : Nat) (hold : Hold) : Action (Option Release) := do
  let record ← ofd index
  Command.require (hold.half record.holds ≠ 0) .stalePin
  setRecord index { record with holds := record.holds - hold.amount }
  if record.holds ≠ hold.amount then pure none
  else do
    freeOfd index
    pure (some { key := { index := index, generation := record.generation },
                 description := record.description })

def dropHoldFiltered (index : Nat) (hold : Hold) (releaseHere : Description -> Bool) :
    Action DeferredRelease := do
  let record ← ofd index
  Command.require (hold.half record.holds ≠ 0) .stalePin
  setRecord index { record with holds := record.holds - hold.amount }
  if record.holds ≠ hold.amount then pure .none
  else if releaseHere record.description then do
    freeOfd index
    pure (.now { key := { index := index, generation := record.generation },
                 description := record.description })
  else do
    Command.edit (fun store => { store with retiredOfds := index :: store.retiredOfds })
    pure .deferred

def takeRetiredOfd : Action (Option Release) := do
  let top ← Command.observe (fun store => store.retiredOfds.head?)
  match top with
  | none => pure none
  | some index => do
      let count ← Command.observe (fun store => store.records.length)
      if count <= index then pure none
      else do
        Command.edit (fun store => { store with retiredOfds := store.retiredOfds.tail })
        let record ← ofd index
        freeOfd index
        pure (some { key := { index := index, generation := record.generation },
                     description := record.description })

end OfdStore

end FdCore
end Carrick
