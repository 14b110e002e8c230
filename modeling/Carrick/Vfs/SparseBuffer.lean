import Carrick.Foundation.OrderedMap
import Carrick.Foundation.Slice
import Carrick.Foundation.Word

namespace Carrick
namespace Vfs

open Foundation

/-!
# The sparse byte buffer

A file's contents are kept as a logical length and an ordered map from offsets
to the chunks of bytes written there; what no chunk covers reads as zero.  A
write and a punched hole both clear a range of offsets first, cutting the
chunks that reach into it, and a write then puts its bytes there in pieces of
`chunkSize`.

Capacity is not modelled: `shrink_to_fit` changes no byte, and the allocation of
a read's result is taken to succeed.
-/

@[irreducible] def chunkSize : Nat := 4096

theorem chunkSize_pos : 0 < chunkSize := by
  unfold chunkSize
  decide

/-- Chunks by the offset of their first byte. -/
abbrev Chunks := List (Nat × List UInt8)

inductive SparseBufferError where
  | overflow
  deriving DecidableEq, Repr

structure SparseBuffer where
  len : Nat
  chunks : Chunks
  deriving DecidableEq, Repr

/-- Where a chunk ends, saturating like the code's sum. -/
def chunkEnd (entry : Nat × List UInt8) : Nat :=
  saturatingAdd entry.1 entry.2.length

/-! ## Clearing a range of offsets -/

/-- The predecessor of `start` loses what reaches into `[start, stop)`; a
predecessor that reaches beyond `stop` leaves a second piece there. -/
def cutPredecessor (start stop : Nat) (chunks : Chunks) : Chunks :=
  match OrderedMap.lastBelow start chunks with
  | none => chunks
  | some (predStart, predChunk) =>
    if start < chunkEnd (predStart, predChunk) then
      let shortened := OrderedMap.insert predStart (predChunk.take (start - predStart)) chunks
      if stop < chunkEnd (predStart, predChunk) then
        OrderedMap.insert stop (predChunk.drop (stop - predStart)) shortened
      else shortened
    else chunks

/-- The chunk at `key` goes, except for what lies beyond `stop`. -/
def removeUpTo (stop : Nat) (chunks : Chunks) (key : Nat) : Chunks :=
  match OrderedMap.lookup key chunks with
  | none => chunks
  | some chunk =>
    if stop < chunkEnd (key, chunk) then
      OrderedMap.insert stop (chunk.drop (stop - key)) (OrderedMap.remove key chunks)
    else OrderedMap.remove key chunks

/-- The two steps that `write_range` takes for each piece and `punch_hole` once. -/
def clearRange (start stop : Nat) (chunks : Chunks) : Chunks :=
  let cut := cutPredecessor start stop chunks
  ((OrderedMap.between start stop cut).map Prod.fst).foldl (removeUpTo stop) cut

/-! ## Operations that change the buffer -/

/-- One piece of a write, with the offset of the next one. -/
def writeChunk (progress : Nat × Chunks) (piece : List UInt8) : Nat × Chunks :=
  (progress.1 + piece.length,
    OrderedMap.insert progress.1 piece
      (clearRange progress.1 (progress.1 + piece.length) progress.2))

def pruneChunks (bound : Nat) (chunks : Chunks) : Chunks :=
  let kept := ((chunks.filter (fun entry => bound <= entry.1)).map Prod.fst).foldl
    (fun remaining key => OrderedMap.remove key remaining) chunks
  match OrderedMap.lastBelow bound kept with
  | none => kept
  | some (start, chunk) =>
    if bound - start < chunk.length then
      OrderedMap.insert start (chunk.take (bound - start)) kept
    else kept

/-- Copy into `out`, which stands for `[offset, readEnd)`, what `entry` has of it. -/
def copyOverlap (offset readEnd : Nat) (out : List UInt8) (entry : Nat × List UInt8) : List UInt8 :=
  let overlapStart := max entry.1 offset
  let overlapEnd := min (chunkEnd entry) readEnd
  if overlapStart < overlapEnd then
    overwrite out (overlapStart - offset)
      (slice entry.2 (overlapStart - entry.1) (overlapEnd - overlapStart))
  else out

namespace SparseBuffer

def new : SparseBuffer :=
  { len := 0, chunks := [] }

def fromVec (data : List UInt8) : SparseBuffer :=
  { len := data.length,
    chunks := (Foundation.chunks chunkSize data).zipIdx.foldl
      (fun placed piece => OrderedMap.insert (piece.2 * chunkSize) piece.1 placed) [] }

def setLen (buffer : SparseBuffer) (newLen : Nat) : SparseBuffer :=
  { len := newLen, chunks := pruneChunks newLen buffer.chunks }

def truncate (buffer : SparseBuffer) (newLen : Nat) : SparseBuffer :=
  if newLen < buffer.len then buffer.setLen newLen else buffer

def clear (_buffer : SparseBuffer) : SparseBuffer :=
  { len := 0, chunks := [] }

def writeRange (buffer : SparseBuffer) (offset : Nat) (bytes : List UInt8) :
    SparseBuffer × Except SparseBufferError Unit :=
  if bytes = [] then (buffer, .ok ())
  else
    match checkedAdd offset bytes.length with
    | none => (buffer, .error .overflow)
    | some stop =>
      ({ len := if buffer.len < stop then stop else buffer.len,
         chunks := ((Foundation.chunks chunkSize bytes).foldl writeChunk
           (offset, buffer.chunks)).2 }, .ok ())

def extendFromSlice (buffer : SparseBuffer) (bytes : List UInt8) :
    SparseBuffer × Except SparseBufferError Unit :=
  buffer.writeRange buffer.len bytes

def punchHole (buffer : SparseBuffer) (offset length : Nat) : SparseBuffer :=
  if length = 0 ∨ buffer.len <= offset then buffer
  else
    { buffer with
      chunks := clearRange offset (min (saturatingAdd offset length) buffer.len) buffer.chunks }

/-! ## Reading -/

/-- The chunks a read of `[offset, readEnd)` copies from: the predecessor if it
reaches in, and those that start inside. -/
def visited (buffer : SparseBuffer) (offset readEnd : Nat) : Chunks :=
  (OrderedMap.lastBelow offset buffer.chunks).toList.filter
      (fun pred => offset < chunkEnd pred) ++
    OrderedMap.between offset readEnd buffer.chunks

def readRange (buffer : SparseBuffer) (offset length : Nat) : List UInt8 :=
  if buffer.len <= offset ∨ length = 0 then []
  else
    let takeLen := min length (buffer.len - offset)
    let readEnd := saturatingAdd offset takeLen
    (buffer.visited offset readEnd).foldl (copyOverlap offset readEnd) (List.replicate takeLen 0)

def toVec (buffer : SparseBuffer) : List UInt8 :=
  buffer.readRange 0 buffer.len

/-! ## The equality implementations -/

/-- The end of the chunk that covers `offset`. -/
def activeEnd (buffer : SparseBuffer) (offset : Nat) : Option Nat :=
  ((OrderedMap.lastUpTo offset buffer.chunks).map chunkEnd).filter (fun stop => offset < stop)

/-- Where data next starts from `offset` on, or `len` if nowhere. -/
def nextStart (buffer : SparseBuffer) (offset len : Nat) : Nat :=
  if (buffer.activeEnd offset).isSome then offset
  else ((OrderedMap.firstFrom offset buffer.chunks).map Prod.fst).getD len

/-- The comparison loop; `none` is a loop that has not ended. -/
def eqWalk (self other : SparseBuffer) : Nat -> Nat -> Option Bool
  | 0, _ => none
  | fuel + 1, offset =>
    if offset < self.len then
      let holeEnd := min (min (self.nextStart offset self.len) (other.nextStart offset self.len))
        self.len
      if (self.activeEnd offset).isNone ∧ (other.activeEnd offset).isNone ∧ offset < holeEnd then
        eqWalk self other fuel holeEnd
      else
        let step := min (self.len - offset) chunkSize
        if self.readRange offset step ≠ other.readRange offset step then some false
        else eqWalk self other fuel (offset + step)
    else some true

/-- `PartialEq for SparseBuffer`. -/
def eqBuffer (self other : SparseBuffer) : Option Bool :=
  if self.len ≠ other.len then some false
  else if self.chunks = other.chunks then some true
  else eqWalk self other (self.len + 1) 0

/-- Compare the chunks in order with the bytes they cover and the gaps before
them with zeros; the answer is the end of the last chunk. -/
def eqChunks (other : List UInt8) : Nat -> Chunks -> Option Nat
  | lastEnd, [] => some lastEnd
  | lastEnd, entry :: rest =>
    if lastEnd < entry.1 ∧ ¬ (slice other lastEnd (entry.1 - lastEnd)).all (· == 0) then none
    else if slice other entry.1 (chunkEnd entry - entry.1) ≠ entry.2 then none
    else eqChunks other (chunkEnd entry) rest

/-- `PartialEq<[u8]> for SparseBuffer`. -/
def eqSlice (self : SparseBuffer) (other : List UInt8) : Bool :=
  if self.len ≠ other.length then false
  else if self.chunks = [] then other.all (· == 0)
  else
    match eqChunks other 0 self.chunks with
    | none => false
    | some lastEnd =>
      ¬ (lastEnd < self.len ∧ ¬ (slice other lastEnd (self.len - lastEnd)).all (· == 0))

/-- `PartialEq<[u8; N]> for SparseBuffer`. -/
def eqArray {n : Nat} (self : SparseBuffer) (other : Vector UInt8 n) : Bool :=
  self.eqSlice other.toList

end SparseBuffer

end Vfs
end Carrick
