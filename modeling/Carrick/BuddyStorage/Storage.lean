import Carrick.Foundation.BuddyTree
import Mathlib.Data.Nat.Log
import Mathlib.Data.Nat.Bitwise
import Mathlib.Logic.Function.Basic

namespace Carrick
namespace BuddyStorage

/-!
# The buddy allocator of descriptor backing

One word a node records the largest free order below it.  The root is node
one and the halves of node `i` are nodes `2 i` and `2 i + 1`.  A node whose
split flag is clear speaks for its whole range, and the words below it are
left over from earlier splits.

Every call runs under one lock.  The verdict of waiting for it is a parameter
of the call: a contended call gives up before it reads anything.
-/

inductive StorageError where
  | invalid
  | exhausted
  | contended
  deriving DecidableEq, Repr

/-- The owned receipt of an allocation. -/
structure Allocation where
  offset : Nat
  bytes : Nat
  deriving DecidableEq, Repr

/-- A node handed out as a whole. -/
def allocated : Nat := 2 ^ 31

/-- The flag of a node whose halves speak for themselves. -/
def split : Nat := 2 ^ 30

/-- The order bits of a node word. -/
def order : Nat := 2 ^ 32 - 1 - (allocated ||| split)

/-- Shared metadata for a tree of at most `size` node words.  Node 1 is the root
and the children of node `n` are `2 n` and `2 n + 1`. -/
structure Storage (size : Nat) where
  pages : Nat
  live : Nat
  nodes : Nat -> Nat

def Storage.zeroed (size : Nat) : Storage size where
  pages := 0
  live := 0
  nodes := fun _ => 0

/-- The smallest power of two that is not below the value, when it fits a 64-bit word. -/
def checkedNextPowerOfTwo (value : Nat) : Option Nat :=
  if 2 ^ Nat.clog 2 value < 2 ^ 64 then some (2 ^ Nat.clog 2 value) else none

/-- The wrapping decrement of a 32-bit counter. -/
def wrappingPred (count : Nat) : Nat :=
  if count = 0 then 2 ^ 32 - 1 else count - 1

variable {size : Nat}

/-- Sets up the pool over a power of two of pages, once. -/
def Storage.initializeStorage (storage : Storage size) (contended : Bool) (bytes : Nat) :
    Storage size × Except StorageError Unit :=
  if contended then (storage, .error .contended)
  else
    let pages := bytes / 4096
    if bytes % 4096 ≠ 0 ∨ ¬ pages.isPowerOfTwo ∨ pages > size / 2 ∨ pages > 2 ^ 32 - 1 ∨
        storage.pages ≠ 0 then
      (storage, .error .invalid)
    else
      ({ storage with
          pages := pages
          nodes := Function.update storage.nodes 1 (pages.log2 + 1) }, .ok ())

/-- The order of the smallest block that holds so many bytes. -/
def orderOf (bytes : Nat) : Except StorageError Nat :=
  match checkedNextPowerOfTwo ((max bytes 1 + 4095) / 4096) with
  | some pages => .ok (pages.log2 + 1)
  | none => .error .exhausted

/-- The walk of an allocation from a node `levels` above the wanted order down
to the block it takes: the left half is used when it is large enough. -/
def descend (wanted : Nat) : Nat -> (Nat -> Nat) -> Nat -> Nat -> (Nat -> Nat) × Nat × Nat
  | 0, nodes, index, offset => (nodes, index, offset)
  | levels + 1, nodes, index, offset =>
    let below := wanted + levels
    let nodes :=
      if nodes index &&& split = 0 then
        Function.update (Function.update nodes (index * 2) below) (index * 2 + 1) below
      else nodes
    if nodes (index * 2) &&& order < wanted then
      descend wanted levels nodes (index * 2 + 1) (offset + 4096 <<< (below - 1))
    else
      descend wanted levels nodes (index * 2) offset

/-- The word of a parent after an allocation below it. -/
def splitWord (_ left right : Nat) : Nat :=
  split ||| max (left &&& order) (right &&& order)

/-- The word of a parent of the given order after a release below it. -/
def joinWord (parentOrder left right : Nat) : Nat :=
  if left = parentOrder - 1 ∧ right = parentOrder - 1 then parentOrder
  else split ||| max (left &&& order) (right &&& order)

/-- The walk back to the root that recomputes each parent from its halves.
A node index bounds the number of rounds. -/
def ascend (parent : Nat -> Nat -> Nat -> Nat) : Nat -> (Nat -> Nat) -> Nat -> Nat -> Nat -> Nat
  | 0, nodes, _, _ => nodes
  | fuel + 1, nodes, index, below =>
    if index > 1 then
      let index := index / 2
      let below := below + 1
      ascend parent fuel
        (Function.update nodes index (parent below (nodes (index * 2)) (nodes (index * 2 + 1))))
        index below
    else nodes

/-- Takes the first block that is large enough. -/
def Storage.allocate (storage : Storage size) (contended : Bool) (bytes : Nat) :
    Storage size × Except StorageError Allocation :=
  match orderOf bytes with
  | .error error => (storage, .error error)
  | .ok wanted =>
    if contended then (storage, .error .contended)
    else if storage.pages = 0 then (storage, .error .invalid)
    else if storage.nodes 1 &&& order < wanted then (storage, .error .exhausted)
    else
      let found := descend wanted (storage.pages.log2 + 1 - wanted) storage.nodes 1 0
      let nodes := Function.update found.1 found.2.1 allocated
      ({ storage with
          nodes := ascend splitWord found.2.1 nodes found.2.1 wanted
          live := (storage.live + 1) % 2 ^ 32 },
        .ok { offset := found.2.2, bytes := 4096 <<< (wanted - 1) })

/-- The walk of a release to the node its receipt names; a node on the way
that is not split ends it. -/
def locate (wanted : Nat) (nodes : Nat -> Nat) : Nat -> Nat -> Nat -> Option Nat
  | 0, index, _ => some index
  | levels + 1, index, offset =>
    if nodes index &&& split = 0 then none
    else
      let half := 4096 <<< (wanted + levels - 1)
      locate wanted nodes levels (index * 2 + if offset >= half then 1 else 0) (offset % half)

/-- A receipt that names no range of the pool. -/
abbrev Storage.Malformed (storage : Storage size) (allocation : Allocation) : Prop :=
  allocation.bytes < 4096 ∨ ¬ allocation.bytes.isPowerOfTwo ∨
    allocation.offset % allocation.bytes ≠ 0 ∨
    allocation.offset + allocation.bytes >= 2 ^ 64 ∨
    allocation.offset + allocation.bytes > storage.pages * 4096

/-- Returns the block a receipt names and clears the receipt. -/
def Storage.release (storage : Storage size) (contended : Bool) (allocation : Allocation) :
    Storage size × Allocation × Except StorageError Unit :=
  if contended then (storage, allocation, .error .contended)
  else if storage.Malformed allocation then (storage, allocation, .error .invalid)
  else
    match orderOf allocation.bytes with
    | .error error => (storage, allocation, .error error)
    | .ok wanted =>
      match locate wanted storage.nodes (storage.pages.log2 + 1 - wanted) 1
          allocation.offset with
      | none => (storage, allocation, .error .invalid)
      | some index =>
        if storage.nodes index ≠ allocated then (storage, allocation, .error .invalid)
        else
          ({ storage with
              nodes := ascend joinWord index (Function.update storage.nodes index wanted)
                index wanted
              live := wrappingPred storage.live },
            { offset := 0, bytes := 0 }, .ok ())

theorem Storage.release_contended (storage : Storage size) (allocation : Allocation) :
    storage.release true allocation = (storage, allocation, .error .contended) := by
  simp [Storage.release]

theorem Storage.allocate_contended (storage : Storage size) (bytes : Nat) :
    ∃ error, storage.allocate true bytes = (storage, .error error) := by
  unfold Storage.allocate
  cases orderOf bytes with
  | error error => exact ⟨error, rfl⟩
  | ok wanted => exact ⟨.contended, by simp⟩

end BuddyStorage
end Carrick
