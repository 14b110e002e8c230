import Carrick.Foundation.SearchTree
import Carrick.Foundation.Word
import Mathlib.Data.Prod.Lex

namespace Carrick
namespace Reservation

open Foundation

/-!
# Reservation records and their Linux interpretation

The values a reservation root is built from: page-aligned ranges, protections
and node flags, retained byte sources, the mapping nodes with the aggregates
their tree caches, and the requests a proposal makes.  The second half is the
Linux client's reading of them: which nodes the root may edit, what they
charge, and when two adjacent nodes are one mapping.
-/

def pageSize : Nat := 4096

inductive Refusal where
  | busy
  | preparedConflict
  | stale
  | invalid
  | collision
  | hole
  | foreignMapping
  | limit
  | metadataRequired
  deriving DecidableEq

/-- A page-aligned half-open range of 64-bit virtual addresses. -/
structure ReservationRange where
  start : Nat
  stop : Nat
  ordered : start < stop
  start_aligned : start % pageSize = 0
  stop_aligned : stop % pageSize = 0
  in_word : stop < wordLimit
  deriving DecidableEq

namespace ReservationRange

def new (start stop : Nat) : Option ReservationRange :=
  if valid : start < stop ∧ start % pageSize = 0 ∧ stop % pageSize = 0 ∧ stop < wordLimit then
    some ⟨start, stop, valid.1, valid.2.1, valid.2.2.1, valid.2.2.2⟩
  else none

def len (range : ReservationRange) : Nat := range.stop - range.start

/-- The pages of the range, which bound the rounds of a walk over it. -/
def pages (range : ReservationRange) : Nat := range.len / pageSize

def contains (range : ReservationRange) (address : Nat) : Bool :=
  decide (range.start <= address) && decide (address < range.stop)

def overlaps (range other : ReservationRange) : Bool :=
  decide (range.start < other.stop) && decide (other.start < range.stop)

theorem new_eq_some {start stop : Nat} {range : ReservationRange}
    (made : new start stop = some range) : range.start = start ∧ range.stop = stop := by
  unfold new at made
  split at made
  · cases made
    exact ⟨rfl, rfl⟩
  · cases made

theorem contains_iff {range : ReservationRange} {address : Nat} :
    range.contains address = true <-> range.start <= address ∧ address < range.stop := by
  simp [contains]

theorem le_pages (range : ReservationRange) :
    range.stop <= range.start + range.pages * pageSize := by
  have ordered := range.ordered
  have startAligned := range.start_aligned
  have stopAligned := range.stop_aligned
  unfold pages len pageSize at *
  omega

end ReservationRange

/-- Three permission bits: read, write, execute. -/
abbrev ReservationProtection := BitVec 3

namespace ReservationProtection

def none : ReservationProtection := 0
def read : ReservationProtection := 1
def readWrite : ReservationProtection := 3

def permits (protection access : ReservationProtection) : Bool :=
  decide (protection &&& access = access)

end ReservationProtection

/-- The ten attribute bits of a node. -/
abbrev ReservationNodeFlags := BitVec 10

namespace ReservationNodeFlags

def empty : ReservationNodeFlags := 0
def anonymous : ReservationNodeFlags := 1
def privateMap : ReservationNodeFlags := 2
def growsdown : ReservationNodeFlags := 4
def locked : ReservationNodeFlags := 8
def dontfork : ReservationNodeFlags := 16
def wipeonfork : ReservationNodeFlags := 32
def dontdump : ReservationNodeFlags := 64
def file : ReservationNodeFlags := 128
def image : ReservationNodeFlags := 512
def anonymousPrivate : ReservationNodeFlags := anonymous ||| privateMap
def attributes : ReservationNodeFlags := growsdown ||| locked ||| dontfork ||| wipeonfork ||| dontdump
def carried : ReservationNodeFlags := locked ||| dontfork ||| wipeonfork ||| dontdump ||| image

def contains (flags other : ReservationNodeFlags) : Bool := decide (flags &&& other = other)
def intersects (flags other : ReservationNodeFlags) : Bool := decide (flags &&& other ≠ 0)
def union (flags other : ReservationNodeFlags) : ReservationNodeFlags := flags ||| other
def difference (flags other : ReservationNodeFlags) : ReservationNodeFlags := flags &&& ~~~other

def rootEditable (flags : ReservationNodeFlags) : Bool :=
  let kind := flags.difference carried
  decide (kind = anonymousPrivate) || decide (kind = privateMap ||| file)

/-- `RLIMIT_DATA` covers private writable mappings that are not stacks. -/
def chargesData (flags : ReservationNodeFlags) (protection : ReservationProtection) : Bool :=
  flags.contains privateMap && !flags.contains growsdown && decide (protection &&& 2 ≠ 0)

end ReservationNodeFlags

/-- The identity of a retained byte source: its physical handle and generation. -/
structure SourceName where
  handle : Nat
  generation : Nat
  handle_ne : handle ≠ 0
  generation_ne : generation ≠ 0
  deriving DecidableEq

def SourceName.rank (name : SourceName) : Nat ×ₗ Nat := toLex (name.handle, name.generation)

theorem SourceName.rank_injective {first second : SourceName} (same : first.rank = second.rank) :
    first = second := by
  cases first with
  | mk handle generation handle_ne generation_ne =>
    cases second with
    | mk otherHandle otherGeneration _ _ =>
      have pair : (handle, generation) = (otherHandle, otherGeneration) := toLex.injective same
      cases pair
      rfl

structure HostBackingIdentity where
  name : SourceName
  offset : Nat
  in_word : offset < wordLimit
  deriving DecidableEq

namespace HostBackingIdentity

/-- The same source further along, unless the offset leaves the word. -/
def advance (backing : HostBackingIdentity) (bytes : Nat) : Option HostBackingIdentity :=
  if inside : backing.offset + bytes < wordLimit then some ⟨backing.name, _, inside⟩ else none

@[simp] theorem advance_zero (backing : HostBackingIdentity) :
    backing.advance 0 = some backing := by
  unfold advance
  rw [dif_pos (by simpa using backing.in_word)]
  simp

theorem advance_eq_some {backing moved : HostBackingIdentity} {bytes : Nat}
    (answer : backing.advance bytes = some moved) :
    moved.name = backing.name ∧ moved.offset = backing.offset + bytes := by
  unfold advance at answer
  split at answer
  · cases answer
    exact ⟨rfl, rfl⟩
  · cases answer

theorem advance_isSome_iff {backing : HostBackingIdentity} {bytes : Nat} :
    (backing.advance bytes).isSome = true <-> backing.offset + bytes < wordLimit := by
  unfold advance
  split
  · simpa
  · simpa using not_lt.mp (by assumption)

/-- Advancing in two steps is advancing once, also past the end of the word. -/
theorem advance_bind (backing : HostBackingIdentity) (first second : Nat) :
    (backing.advance first).bind (fun moved => moved.advance second) =
      backing.advance (first + second) := by
  by_cases inside : backing.offset + first < wordLimit
  · have moved : backing.advance first = some ⟨backing.name, _, inside⟩ := dif_pos inside
    rw [moved, Option.bind_some]
    unfold advance
    by_cases further : backing.offset + first + second < wordLimit
    · rw [dif_pos further, dif_pos (by omega)]
      simp [Nat.add_assoc]
    · rw [dif_neg further, dif_neg (by omega)]
  · have stuck : backing.advance first = none := dif_neg inside
    have further : backing.advance (first + second) = none := dif_neg (by omega)
    rw [stuck, further, Option.bind_none]

end HostBackingIdentity

/-- One committed mapping node, without its tree links.  The incarnation tells
lives of anonymous memory at one address apart. -/
structure Node where
  start : Nat
  stop : Nat
  prot : ReservationProtection
  flags : ReservationNodeFlags
  incarnation : Nat
  hostBacking : Option HostBackingIdentity
  deriving DecidableEq

namespace Node

def len (node : Node) : Nat := node.stop - node.start

def covers (node : Node) (address : Nat) : Prop := node.start <= address ∧ address < node.stop

instance (node : Node) (address : Nat) : Decidable (node.covers address) :=
  inferInstanceAs (Decidable (_ ∧ _))

def isAnonymous (node : Node) : Bool := node.flags.contains .anonymous

def rootEditable (node : Node) : Bool :=
  node.flags.rootEditable && (!node.flags.contains .file || node.hostBacking.isSome)

def chargedData (node : Node) : Nat :=
  if node.flags.chargesData node.prot then node.len else 0

def chargedLocked (node : Node) : Nat :=
  if node.flags.contains .anonymous && node.flags.contains .locked then node.len else 0

def validatesAttributes (node : Node) (set : ReservationNodeFlags) : Bool :=
  !set.contains .wipeonfork || node.flags.contains .anonymousPrivate

/-- A forked child inherits every node not marked `MADV_DONTFORK`. -/
def inherits (node : Node) : Bool := !node.flags.contains .dontfork

/-- Whether an adjacent node is the same Linux mapping: equal protection and
flags, and byte sources that agree at the distance between the two starts. -/
def sameMapping (node other : Node) : Bool :=
  decide (node.prot = other.prot) && decide (node.flags = other.flags) &&
    match node.hostBacking, other.hostBacking with
    | none, none => true
    | some source, some otherSource =>
      if node.start <= other.start then
        decide (source.advance (other.start - node.start) = some otherSource)
      else decide (otherSource.advance (node.start - other.start) = some source)
    | _, _ => false

end Node

/-- What a node of the mapping tree caches about its subtree: its height, its
bounds, its largest gap and its charges. -/
structure Aggregates where
  height : Nat
  first : Nat
  last : Nat
  gap : Nat
  bytes : Nat
  data : Nat
  locked : Nat
  deriving DecidableEq

/-- The aggregates of a missing child. -/
def Aggregates.none : Aggregates := ⟨0, 0, 0, 0, 0, 0, 0⟩

/-- `fix_node`: the aggregates of a node from those of its children. -/
def fixNode (left : Option Aggregates) (node : Node) (right : Option Aggregates) : Aggregates :=
  let leftSide := left.getD .none
  let rightSide := right.getD .none
  { height := 1 + max leftSide.height rightSide.height
    first := if left.isNone then node.start else leftSide.first
    last := if right.isNone then node.stop else rightSide.last
    gap := max (max (max leftSide.gap rightSide.gap)
        (if left.isNone then 0 else node.start - leftSide.last))
      (if right.isNone then 0 else rightSide.first - node.stop)
    bytes := leftSide.bytes + rightSide.bytes + node.stop - node.start
    data := leftSide.data + rightSide.data + node.chargedData
    locked := leftSide.locked + rightSide.locked + node.chargedLocked }

def mappingSummary : Summary Node Aggregates := ⟨fixNode, Aggregates.height⟩

abbrev MappingTree := SearchTree Node Aggregates

inductive ReservationOperation where
  | prepare
  | protect
  | retire
  | move
  | decommit
  deriving DecidableEq

structure ReservationRequest where
  mm : Nat
  generation : Nat
  sequence : Nat
  range : ReservationRange
  protection : ReservationProtection
  operation : ReservationOperation
  source : Option ReservationRange
  deriving DecidableEq

inductive Decision where
  | complete (value : Nat)
  | work (request : ReservationRequest)
  deriving DecidableEq

inductive Placement where
  | anywhere
  | hint (address : Nat)
  | fixed (address : Nat)
  | noReplace (address : Nat)
  deriving DecidableEq

inductive MoveTarget where
  | inPlace
  | mayMove
  | fixed (address : Nat)
  | keepSource (address : Option Nat)
  deriving DecidableEq

structure ReservationProposal where
  range : ReservationRange
  protection : ReservationProtection
  operation : ReservationOperation
  result : Nat
  policyValue : Nat
  requireCoverage : Bool
  source : Option ReservationRange
  flags : ReservationNodeFlags

/-- The Linux words of a root's layout: the byte break, the two limits, and
the charges of mappings the root does not model. -/
structure LinuxReservationState where
  brk : Nat
  addressLimit : Nat
  dataLimit : Nat
  externalAddressBytes : Nat
  externalDataBytes : Nat
  deriving DecidableEq

structure Layout where
  heap : ReservationRange
  arena : ReservationRange
  policy : LinuxReservationState
  deriving DecidableEq

structure Charges where
  bytes : Nat
  data : Nat
  deriving DecidableEq

/-- Linux limit admission: an edit that does not grow a charge passes even
after the limit was lowered below what is mapped. -/
def admitsCharges (policy : LinuxReservationState) (total removed added : Charges) :
    Except Refusal Unit :=
  match checkedSub total.bytes removed.bytes, checkedSub total.data removed.data with
  | some bytes, some data =>
    let within (left right external limit : Nat) : Bool :=
      match (checkedAdd left right).bind (fun sum => checkedAdd sum external) with
      | none => false
      | some sum => decide (sum <= limit)
    if (!within bytes added.bytes policy.externalAddressBytes policy.addressLimit ||
        !within data added.data policy.externalDataBytes policy.dataLimit) &&
        (decide (removed.bytes < added.bytes) || decide (removed.data < added.data)) then
      .error .limit
    else .ok ()
  | _, _ => .error .stale

end Reservation
end Carrick
