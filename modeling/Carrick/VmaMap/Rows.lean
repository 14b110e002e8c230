import Carrick.Foundation.Seam
import Carrick.Foundation.Word

namespace Carrick
namespace VmaMap

open Foundation

/-!
# The map of semantic VMAs

The address space is a vector of rows, sorted by address, each with a range
and the attributes of its pages.  The file page offset of a row is that of its
first page.  Editing a range splits the rows that straddle its ends, splices
the result in and joins it with its two neighbours.  The page arithmetic is
checked: an addition that leaves the word panics before anything is written,
which is the answer `none` here.
-/

/-! ## Rows and their attributes -/

inductive VmaBackingProvenance where
  | privateAnonymous
  | sharedAnonymous
  | privateFile
  | sharedFile
  | specialKernelSynthetic
  deriving DecidableEq

inductive VmaForkCopyPolicy where
  | inherit
  | omit
  deriving DecidableEq

inductive VmaForkChildPolicy where
  | preserve
  | zeroInChild
  deriving DecidableEq

structure VmaForkPolicy where
  copy : VmaForkCopyPolicy
  childContents : VmaForkChildPolicy
  deriving DecidableEq

def VmaForkPolicy.default : VmaForkPolicy := ⟨.inherit, .preserve⟩

inductive VmaDumpPolicy where
  | include
  | omit
  deriving DecidableEq

structure VmaAttributes where
  read : Bool
  write : Bool
  execute : Bool
  provenance : VmaBackingProvenance
  forkPolicy : VmaForkPolicy
  dumpPolicy : VmaDumpPolicy
  droppable : Bool
  path : String
  filePageOffset : Option Nat
  deriving DecidableEq

structure SemanticVma where
  start : Nat
  stop : Nat
  attributes : VmaAttributes
  deriving DecidableEq

def pageSize : Nat := 4096

namespace VmaAttributes

def withOffset (attributes : VmaAttributes) (offset : Option Nat) : VmaAttributes :=
  { attributes with filePageOffset := offset }

/-- The attributes of the part that starts `delta` bytes into a row. -/
def offsetBy (attributes : VmaAttributes) (delta : Nat) : Option VmaAttributes :=
  match attributes.filePageOffset with
  | none => some attributes
  | some base =>
    (checkedAdd base (delta / pageSize)).map (fun offset => attributes.withOffset (some offset))

/-- Whether the offset of the second row continues the first one. -/
def offsetContiguous (first second : Option Nat) (length : Nat) : Bool :=
  match first, second with
  | none, none => true
  | some before, some behind => decide (checkedAdd before (length / pageSize) = some behind)
  | _, _ => false

def canMergeWith (attributes next : VmaAttributes) (length : Nat) : Bool :=
  offsetContiguous attributes.filePageOffset next.filePageOffset length &&
    decide (attributes = next.withOffset attributes.filePageOffset)

end VmaAttributes

abbrev Rows := List SemanticVma

/-- Whether the second row continues the first one. -/
def SemanticVma.continuedBy (first second : SemanticVma) : Bool :=
  decide (first.stop = second.start) &&
    first.attributes.canMergeWith second.attributes (first.stop - first.start)

def SemanticVma.extendedBy (first second : SemanticVma) : SemanticVma :=
  { first with stop := second.stop }

/-- Join the rows at an index and behind it, if the second continues the first. -/
def tryMergeAdjacent (rows : Rows) (leftIndex : Nat) : Rows :=
  match rows[leftIndex]?, rows[leftIndex + 1]? with
  | some left, some right =>
    if left.continuedBy right then
      rows.take leftIndex ++ left.extendedBy right :: rows.drop (leftIndex + 2)
    else rows
  | _, _ => rows

/-- Collect rows from left to right; `last` is the row collected last. -/
def coalesceFrom (last : SemanticVma) : Rows -> Rows
  | [] => [last]
  | row :: rest =>
    if last.continuedBy row then coalesceFrom (last.extendedBy row) rest
    else last :: coalesceFrom row rest

def coalesce : Rows -> Rows
  | [] => []
  | row :: rest => coalesceFrom row rest

/-! ## Removing and rewriting a range -/

/-- The rows that a search for a range finds: their first index and the one behind. -/
def firstMeeting (rows : Rows) (start : Nat) : Nat :=
  partitionPoint (fun row => decide (row.stop <= start)) rows

def behindMeeting (rows : Rows) (stop : Nat) : Nat :=
  partitionPoint (fun row => decide (row.start < stop)) rows

/-- The part of a row below an address, if there is one. -/
def leftPart (row : SemanticVma) (start : Nat) : Rows :=
  if row.start < start then [⟨row.start, start, row.attributes⟩] else []

/-- The part of a row from an address on, if there is one. -/
def rightPart (row : SemanticVma) (stop : Nat) : Option Rows :=
  if stop < row.stop then
    (row.attributes.offsetBy (stop - row.start)).map (fun attributes => [⟨stop, row.stop, attributes⟩])
  else some []

/-- Replace the rows from one index up to another. -/
def splice (rows : Rows) (first last : Nat) (replacements : Rows) : Rows :=
  rows.take first ++ (replacements ++ rows.drop last)

def removeRange (start stop : Nat) (rows : Rows) : Option Rows :=
  if start < stop then
    let first := firstMeeting rows start
    let last := behindMeeting rows stop
    if last <= first then some rows
    else do
      let leftVma ← rows[first]?
      let rightVma ← rows[last - 1]?
      (rightPart rightVma stop).map
        (fun right => splice rows first last (leftPart leftVma start ++ right))
  else some rows

/-- The pieces of a row that meets the range, with the part inside modified. -/
def modifiedPieces (start stop : Nat) (modify : VmaAttributes -> VmaAttributes)
    (row : SemanticVma) : Option Rows := do
  let attributes ← row.attributes.offsetBy (max row.start start - row.start)
  (rightPart row stop).map (fun right => leftPart row start ++
    ⟨max row.start start, min row.stop stop, modify attributes⟩ :: right)

/-- The pieces of a run of rows, in order. -/
def modifiedRun (start stop : Nat) (modify : VmaAttributes -> VmaAttributes) : Rows -> Option Rows
  | [] => some []
  | row :: rest => do
      let pieces ← modifiedPieces start stop modify row
      (modifiedRun start stop modify rest).map (fun others => pieces ++ others)

/-- Join a run of spliced rows with the row behind it and the row before it. -/
def mergeAround (first count : Nat) (spliced : Rows) : Rows :=
  if 0 < count then
    let behind := if first + count < spliced.length then
        tryMergeAdjacent spliced (first + count - 1)
      else spliced
    if 0 < first then tryMergeAdjacent behind (first - 1) else behind
  else spliced

def modifyRange (start stop : Nat) (modify : VmaAttributes -> VmaAttributes) (rows : Rows) :
    Option Rows :=
  if start < stop then
    let first := firstMeeting rows start
    let last := behindMeeting rows stop
    if last <= first then some rows
    else
      (modifiedRun start stop modify ((rows.drop first).take (last - first))).map (fun pieces =>
        let replacements := coalesce pieces
        mergeAround first replacements.length (splice rows first last replacements))
  else some rows

/-! ## Inserting rows -/

structure VmaOverlapError where
  start : Nat
  stop : Nat
  deriving DecidableEq

/-- Put a row at an index and join it with its neighbours. -/
def insertAt (vma : SemanticVma) (index : Nat) (rows : Rows) : Rows :=
  let inserted := tryMergeAdjacent (rows.take index ++ vma :: rows.drop index) index
  if 0 < index then tryMergeAdjacent inserted (index - 1) else inserted

def insert (vma : SemanticVma) (rows : Rows) : Except VmaOverlapError Unit × Rows :=
  if vma.start < vma.stop then
    let index := partitionPoint (fun row => decide (row.start < vma.start)) rows
    if (decide (0 < index) && rows[index - 1]?.any (fun row => decide (vma.start < row.stop))) = true then
      (.error ⟨vma.start, vma.stop⟩, rows)
    else if rows[index]?.any (fun row => decide (row.start < vma.stop)) = true then
      (.error ⟨vma.start, vma.stop⟩, rows)
    else (.ok (), insertAt vma index rows)
  else (.ok (), rows)

def insertReplacing (vma : SemanticVma) (rows : Rows) : Option Rows :=
  if vma.start < vma.stop then
    (removeRange vma.start vma.stop rows).map (fun removed =>
      insertAt vma (partitionPoint (fun row => decide (row.start < vma.start)) removed) removed)
  else some rows

/-- Insert rows one after another and stop at the first that overlaps. -/
def insertMany : List SemanticVma -> Rows -> Except VmaOverlapError Unit × Rows
  | [], rows => (.ok (), rows)
  | vma :: rest, rows =>
    match insert vma rows with
    | (.ok _, after) => insertMany rest after
    | (.error overlap, after) => (.error overlap, after)

def insertManyReplacing : List SemanticVma -> Rows -> Option Rows
  | [], rows => some rows
  | vma :: rest, rows => do
      let after ← insertReplacing vma rows
      insertManyReplacing rest after

def fromVec (vmas : List SemanticVma) : Option Rows := insertManyReplacing vmas []

/-! ## The other edits -/

def applyForkWipe (rows : Rows) : Rows :=
  rows.filter (fun row => decide (row.attributes.forkPolicy.copy ≠ .omit))

def protectedAs (read write execute : Bool) (attributes : VmaAttributes) : VmaAttributes :=
  { attributes with read := read, write := write, execute := execute }

def updateProt (start stop : Nat) (read write execute : Bool) (rows : Rows) : Option Rows :=
  modifyRange start stop (protectedAs read write execute) rows

def policyAs (copy : Option VmaForkCopyPolicy) (child : Option VmaForkChildPolicy)
    (dump : Option VmaDumpPolicy) (attributes : VmaAttributes) : VmaAttributes :=
  { attributes with
    forkPolicy :=
      ⟨copy.getD attributes.forkPolicy.copy, child.getD attributes.forkPolicy.childContents⟩
    dumpPolicy := dump.getD attributes.dumpPolicy }

def updatePolicy (start stop : Nat) (copy : Option VmaForkCopyPolicy)
    (child : Option VmaForkChildPolicy) (dump : Option VmaDumpPolicy) (rows : Rows) : Option Rows :=
  modifyRange start stop (policyAs copy child dump) rows

def heapAttributes : VmaAttributes where
  read := true
  write := true
  execute := false
  provenance := .privateAnonymous
  forkPolicy := .default
  dumpPolicy := .include
  droppable := false
  path := "[heap]"
  filePageOffset := none

/-- Whether trimming the heap only moves the end of this row. -/
def SemanticVma.trimsHeap (row : SemanticVma) (oldEnd newEnd : Nat) : Bool :=
  decide (row.start < newEnd) && decide (row.stop = oldEnd) && decide (row.attributes.path = "[heap]")

/-- Whether growing the heap only moves the end of this row. -/
def SemanticVma.growsHeap (row : SemanticVma) (oldEnd : Nat) : Bool :=
  decide (row.stop = oldEnd) && decide (row.start < oldEnd) && decide (row.attributes = heapAttributes)

def updateHeapPages (oldEnd newEnd : Nat) (rows : Rows) : Option Rows :=
  if newEnd < oldEnd then
    let index := firstMeeting rows newEnd
    match rows[index]? with
    | some tail =>
      if tail.trimsHeap oldEnd newEnd then some (rows.set index { tail with stop := newEnd })
      else removeRange newEnd oldEnd rows
    | none => removeRange newEnd oldEnd rows
  else if oldEnd < newEnd then
    let next := firstMeeting rows oldEnd
    let grown : SemanticVma := ⟨oldEnd, newEnd, heapAttributes⟩
    if 0 < next then
      match rows[next - 1]? with
      | some tail =>
        if (tail.growsHeap oldEnd &&
            rows[next]?.all (fun following => decide (newEnd < following.start))) = true then
          some (rows.set (next - 1) { tail with stop := newEnd })
        else some (insert grown rows).2
      | none => none
    else some (insert grown rows).2
  else some rows

end VmaMap
end Carrick
