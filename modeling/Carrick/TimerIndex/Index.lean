import Carrick.Foundation.HeapOrder
import Mathlib.Data.Prod.Lex

namespace Carrick
namespace TimerIndex

open Foundation

/-!
# The deadline index

Every serving slot has a heap of the deadlines it serves.  The nodes of all
heaps come from one table, a node stays where it is linked while keys move
between nodes, and the lease of a record says which node holds its key.  Each
operation here is one section under the lock of a slot.
-/

def zoneRecords : Nat := 4096

/-- A record index in `1..zoneRecords`. -/
structure RecordId where
  raw : Nat
  named : raw ≠ 0
  bounded : raw < zoneRecords

namespace RecordId

def fromRaw (raw : Nat) : Option RecordId :=
  if valid : raw ≠ 0 ∧ raw < zoneRecords then some ⟨raw, valid.1, valid.2⟩ else none

/-- Filler where no record is named. -/
def placeholder : RecordId := ⟨1, Nat.one_ne_zero, by unfold zoneRecords; omega⟩

theorem fromRaw_raw (record : RecordId) : fromRaw record.raw = some record := by
  unfold fromRaw
  rw [dif_pos ⟨record.named, record.bounded⟩]

theorem raw_inj {first second : RecordId} (same : first.raw = second.raw) : first = second := by
  cases first
  cases second
  cases same
  rfl

instance : DecidableEq RecordId := fun first second =>
  decidable_of_iff (first.raw = second.raw) ⟨raw_inj, congrArg raw⟩

end RecordId

structure RecordRef where
  id : RecordId
  incarnation : Nat
  deriving DecidableEq

/-- A deadline of a park, served by a slot. -/
structure Ticket where
  slot : Nat
  record : RecordRef
  seq : Nat
  deadline : Nat
  deriving DecidableEq

namespace Ticket

/-- Tickets are ordered by deadline, then by record, then by park. -/
def rank (ticket : Ticket) : Nat ×ₗ Nat ×ₗ Nat ×ₗ Nat :=
  toLex (ticket.deadline, toLex (ticket.record.id.raw, toLex (ticket.record.incarnation, ticket.seq)))

def before (first second : Ticket) : Bool :=
  decide (first.deadline < second.deadline) ||
    decide (first.deadline = second.deadline) &&
      (decide (first.record.id.raw < second.record.id.raw) ||
        decide (first.record.id.raw = second.record.id.raw) &&
          (decide (first.record.incarnation < second.record.incarnation) ||
            decide (first.record.incarnation = second.record.incarnation) &&
              decide (first.seq < second.seq)))

theorem before_iff {first second : Ticket} :
    first.before second = true <-> first.rank < second.rank := by
  unfold before rank
  simp only [Bool.or_eq_true, Bool.and_eq_true, decide_eq_true_eq, Prod.Lex.toLex_lt_toLex]

end Ticket

/-- A node of the table: its place in a heap and the key it holds.  Moves
exchange keys, so a node keeps its place. -/
structure Node where
  parent : Nat
  left : Nat
  right : Nat
  record : Nat
  incarnation : Nat
  seq : Nat
  deadline : Nat
  deriving DecidableEq

structure Tree where
  root : Nat
  len : Nat
  deriving DecidableEq

/-- Where the key of a record is.  `slot` is the slot and one more, 0 for none. -/
structure Lease where
  slot : Nat
  node : Nat
  active : Bool
  deriving DecidableEq

structure Index where
  trees : Nat -> Tree
  nodes : Nat -> Node
  leases : Nat -> Lease
  map : Nat -> Bool

/-- The index with nothing in it. -/
def Index.empty : Index where
  trees := fun _ => ⟨0, 0⟩
  nodes := fun _ => ⟨0, 0, 0, 0, 0, 0, 0⟩
  leases := fun _ => ⟨0, 0, false⟩
  map := fun _ => false

def fromPlusOne (word : Nat) : Option Nat := if word = 0 then none else some (word - 1)

namespace Index

/-- Allocated nodes, including admissions not yet published as parks. -/
def allocatedNodes (index : Index) : Nat := (List.range zoneRecords).countP index.map

def allocBit (index : Index) : Option Nat :=
  (List.range zoneRecords).find? (fun bit => decide (bit ≠ 0) && !index.map bit)

def setBit (index : Index) (node : Nat) (taken : Bool) : Index :=
  { index with map := Function.update index.map node taken }

def setTree (index : Index) (slot : Nat) (tree : Tree) : Index :=
  { index with trees := Function.update index.trees slot tree }

def setNode (index : Index) (node : Nat) (data : Node) : Index :=
  { index with nodes := Function.update index.nodes node data }

def setLease (index : Index) (record : RecordId) (lease : Lease) : Index :=
  { index with leases := Function.update index.leases record.raw lease }

def lease (index : Index) (record : RecordId) : Lease := index.leases record.raw

def key (index : Index) (slot node : Nat) : Ticket :=
  let data := index.nodes node
  ⟨slot, ⟨(RecordId.fromRaw data.record).getD .placeholder, data.incarnation⟩, data.seq, data.deadline⟩

def writeKey (index : Index) (node : Nat) (key : Ticket) : Index :=
  let stored := index.setNode node
    { index.nodes node with
      record := key.record.id.raw
      incarnation := key.record.incarnation
      seq := key.seq
      deadline := key.deadline }
  stored.setLease key.record.id
    { stored.lease key.record.id with node := node, slot := key.slot + 1 }

def swap (index : Index) (slot first second : Nat) : Index :=
  let keyFirst := index.key slot first
  let keySecond := index.key slot second
  (index.writeKey first keySecond).writeKey second keyFirst

def less (index : Index) (slot first second : Nat) : Bool :=
  (index.key slot first).before (index.key slot second)

/-- The node at a position, found by walking the bits of the position below
its highest one. -/
def nodeAt (index : Index) (slot position : Nat) : Nat :=
  (List.range (Nat.log2 position)).reverse.foldl
    (fun node bit =>
      if position.testBit bit then (index.nodes node).right else (index.nodes node).left)
    (index.trees slot).root

/-- Exchange a key with those above it while it comes before them.  The rounds
bound the depth of the heap. -/
def up (slot : Nat) : Nat -> Nat -> Index -> Index
  | 0, _, index => index
  | rounds + 1, node, index =>
    let parent := (index.nodes node).parent
    if decide (parent = 0) || !index.less slot node parent then index
    else up slot rounds parent (index.swap slot node parent)

/-- The child whose key comes first. -/
def lesserChild (index : Index) (slot node : Nat) : Nat :=
  let left := (index.nodes node).left
  let right := (index.nodes node).right
  if decide (right ≠ 0) && index.less slot right left then right else left

def down (slot : Nat) : Nat -> Nat -> Index -> Index
  | 0, _, index => index
  | rounds + 1, node, index =>
    if (index.nodes node).left = 0 then index
    else
      let child := index.lesserChild slot node
      if !index.less slot child node then index
      else down slot rounds child (index.swap slot node child)

/-- Take the link to the last node of a heap from its parent, or from the tree. -/
def unlinkLast (index : Index) (slot last : Nat) : Index :=
  let tree := index.trees slot
  let parent := (index.nodes last).parent
  let unlinked :=
    if parent = 0 then index.setTree slot { tree with root := 0 }
    else if (index.nodes parent).left = last then
      index.setNode parent { index.nodes parent with left := 0 }
    else index.setNode parent { index.nodes parent with right := 0 }
  unlinked.setTree slot { unlinked.trees slot with len := tree.len - 1 }

/-- Clear the lease of the key at a node, and move the key of the last node there. -/
def takeOver (index : Index) (slot node last : Nat) : Index :=
  let key := index.key slot node
  let cleared := index.setLease key.record.id
    { index.lease key.record.id with node := 0, slot := 0 }
  if node = last then cleared else cleared.writeKey node (cleared.key slot last)

/-- Take the key at a node and the last node out of a heap. -/
def vacate (index : Index) (slot node : Nat) : Index :=
  let last := index.nodeAt slot (index.trees slot).len
  ((index.takeOver slot node last).unlinkLast slot last).setBit last false

/-- Let the key that was moved to a node rise or sink. -/
def settle (index : Index) (slot node : Nat) : Index :=
  let parent := (index.nodes node).parent
  if decide (parent ≠ 0) && index.less slot node parent then up slot zoneRecords node index
  else down slot zoneRecords node index

def removeLocked (index : Index) (slot node : Nat) : Ticket × Index :=
  let vacated := index.vacate slot node
  (index.key slot node,
    if node = index.nodeAt slot (index.trees slot).len then vacated else vacated.settle slot node)

/-- Give back a node that is not in a heap. -/
def freeAdmission (index : Index) (record : RecordId) : Index :=
  let node := (index.lease record).node
  (index.setLease record { index.lease record with node := 0, slot := 0 }).setBit node false

def cancelRecord (index : Index) (record : RecordId) : Index :=
  let lease := index.lease record
  match fromPlusOne lease.slot with
  | none => index
  | some slot =>
    if lease.node = 0 then index
    else if lease.active then (index.removeLocked slot lease.node).2
    else index.freeAdmission record

/-- `seen` is the slot that the lease named before the slot was locked. -/
def cancelAdmission (index : Index) (record : RecordRef) (seen : Nat) : Index :=
  let lease := index.lease record.id
  if decide (lease.slot ≠ seen + 1) || lease.active then index
  else if (index.key seen lease.node).record ≠ record then index
  else index.freeAdmission record.id

/-- The section of `reserve` after the record's lease was cancelled. -/
def reserve (index : Index) (ticket : Ticket) : Bool × Index :=
  match index.allocBit with
  | none => (false, index)
  | some node =>
    let taken := index.setBit node true
    let inactive := taken.setLease ticket.record.id { taken.lease ticket.record.id with active := false }
    (true, inactive.writeKey node ticket)

/-- Link a node behind the last one of a heap. -/
def linkLast (index : Index) (slot node position parent : Nat) : Index :=
  let linked :=
    if parent = 0 then index.setTree slot { index.trees slot with root := node }
    else if position % 2 = 0 then index.setNode parent { index.nodes parent with left := node }
    else index.setNode parent { index.nodes parent with right := node }
  linked.setTree slot { linked.trees slot with len := position }

def enlist (index : Index) (ticket : Ticket) (node : Nat) : Index :=
  let active := index.setLease ticket.record.id { index.lease ticket.record.id with active := true }
  let position := (index.trees ticket.slot).len + 1
  let parent := if position = 1 then 0 else index.nodeAt ticket.slot (position / 2)
  let placed := active.setNode node
    { active.nodes node with parent := parent, left := 0, right := 0 }
  (placed.writeKey node ticket).linkLast ticket.slot node position parent

def activate (index : Index) (ticket : Ticket) : Index :=
  let lease := index.lease ticket.record.id
  if lease.slot ≠ ticket.slot + 1 then index
  else
    let reserved := index.key ticket.slot lease.node
    if decide (reserved.record ≠ ticket.record) || decide (reserved.seq ≠ ticket.seq) || lease.active then
      index
    else up ticket.slot zoneRecords lease.node (index.enlist ticket lease.node)

/-- The rounds bound the tickets that are found dead. -/
def minimumFrom (slot : Nat) (live : Ticket -> Bool) : Nat -> Index -> Option Ticket × Index
  | 0, index => (none, index)
  | rounds + 1, index =>
    let node := (index.trees slot).root
    if node = 0 then (none, index)
    else if live (index.key slot node) then (some (index.key slot node), index)
    else minimumFrom slot live rounds (index.removeLocked slot node).2

def minimum (index : Index) (slot : Nat) (live : Ticket -> Bool) : Option Ticket × Index :=
  minimumFrom slot live ((index.trees slot).len + 1) index

def remove (index : Index) (ticket : Ticket) : Bool × Index :=
  let lease := index.lease ticket.record.id
  if lease.slot ≠ ticket.slot + 1 then (false, index)
  else if decide (lease.node = 0) || decide (index.key ticket.slot lease.node ≠ ticket) then (false, index)
  else (true, (index.removeLocked ticket.slot lease.node).2)

/-- The node that `take_foreign` removes next: the root, unless it is the live
ticket of the home record; 0 for none. -/
def foreignNode (index : Index) (slot : Nat) (home : Option RecordId) (live : Ticket -> Bool) : Nat :=
  let root := (index.trees slot).root
  let rootKey := index.key slot root
  if !live rootKey || decide (some rootKey.record.id ≠ home) then root
  else if (index.nodes root).left = 0 then 0
  else index.lesserChild slot root

def takeForeignFrom (slot : Nat) (home : Option RecordId) (live : Ticket -> Bool) :
    Nat -> Index -> Option Ticket × Index
  | 0, index => (none, index)
  | rounds + 1, index =>
    if (index.trees slot).root = 0 then (none, index)
    else
      let node := index.foreignNode slot home live
      if node = 0 then (none, index)
      else
        let removed := index.removeLocked slot node
        if live removed.1 then (some removed.1, removed.2)
        else takeForeignFrom slot home live rounds removed.2

def takeForeign (index : Index) (slot : Nat) (home : Option RecordId) (live : Ticket -> Bool) :
    Option Ticket × Index :=
  takeForeignFrom slot home live ((index.trees slot).len + 1) index

end Index

end TimerIndex
end Carrick
