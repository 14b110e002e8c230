import Carrick.Foundation.Slice
import Carrick.Foundation.Word
import Mathlib.Data.Nat.Log

namespace Carrick
namespace PipeCore

open Foundation

/-!
# The pipe record, its storage and its operations

A pipe is a record over a byte ring and page metadata.  The ring is page
granular: a live page holds a nonempty slice of its bytes, a write merges only
the remainder of its length into the tail page and then takes whole pages, and
a read consumes pages from the head.

A staged transfer hands chunks to a callback that answers how many bytes it
took or filled.  A callback is a function of its earlier calls, which every
transfer reports along with its result: this is what a mutable closure can
observe.
-/

def pipeBuf : Nat := 4096
def maxPageSize : Nat := 2 ^ 30
def i32Max : Nat := 2 ^ 31 - 1

inductive WaitFor where
  | readable
  | writable
  deriving DecidableEq

inductive Error where
  | wouldBlock (on : WaitFor)
  | brokenPipe
  | invalid
  | busy
  | permission
  | storage
  | refcount
  | fault
  | corrupt
  | revisionExhausted
  deriving DecidableEq

/-- The waiters an operation notifies to recheck. -/
structure WakeSet where
  readers : Bool
  writers : Bool
  deriving DecidableEq

structure Step (T : Type) where
  result : Except Error T
  wake : WakeSet

def Step.quiet {T : Type} (result : Except Error T) : Step T :=
  ⟨result, ⟨false, false⟩⟩

def Step.changed {T : Type} (value : T) (readers writers : Bool) : Step T :=
  ⟨.ok value, ⟨readers, writers⟩⟩

structure Readiness where
  readable : Bool
  writable : Bool
  hup : Bool
  err : Bool
  deriving DecidableEq

inductive End where
  | reader
  | writer
  deriving DecidableEq

/-- The live bytes of a page: `[offset, offset + len)` of it. -/
structure Page where
  offset : Nat
  len : Nat
  deriving DecidableEq

instance : Inhabited Page := ⟨⟨0, 0⟩⟩

structure PipeRecord where
  pageSize : Nat
  capacityPages : Nat
  head : Nat
  used : Nat
  unread : Nat
  readers : Nat
  writers : Nat

/-- A record with its storage and the readiness revision a view may bind.  The
slots are a ring of pages from the head of the record on. -/
structure Pipe where
  state : PipeRecord
  bytes : List UInt8
  slots : List Page
  revision : Option Nat

inductive ReadAction where
  | copyAndConsume
  | peek
  | consume
  deriving DecidableEq

def validatePageSize (pageSize : Nat) : Except Error Unit :=
  if pipeBuf <= pageSize ∧ pageSize <= maxPageSize ∧ 2 ^ Nat.log 2 pageSize = pageSize then .ok ()
  else .error .invalid

/-- The next power of two of the requested size, at least one page. -/
def roundedCapacity (pageSize requested : Nat) : Except Error Nat :=
  match validatePageSize pageSize with
  | .error error => .error error
  | .ok () =>
    let rounded := 2 ^ Nat.clog 2 (max requested pageSize)
    if rounded <= i32Max then .ok rounded else .error .invalid

namespace PipeRecord

def fresh (pageSize pages : Nat) : PipeRecord where
  pageSize := pageSize
  capacityPages := pages
  head := 0
  used := 0
  unread := 0
  readers := 1
  writers := 1

def new (bytesLen slotsLen pageSize requested : Nat) : Except Error PipeRecord :=
  match roundedCapacity pageSize requested with
  | .error error => .error error
  | .ok capacity =>
    let pages := capacity / pageSize
    if bytesLen < capacity ∨ slotsLen < pages then .error .storage
    else .ok (fresh pageSize pages)

/-- A record without ring storage: the first write asks for it. -/
def unbacked (pageSize requested : Nat) : Except Error PipeRecord :=
  match roundedCapacity pageSize requested with
  | .error error => .error error
  | .ok capacity => .ok (fresh pageSize (capacity / pageSize))

def capacity (record : PipeRecord) : Nat :=
  record.capacityPages * record.pageSize

def references (record : PipeRecord) : End -> Nat
  | .reader => record.readers
  | .writer => record.writers

def setReferences (record : PipeRecord) (count : Nat) : End -> PipeRecord
  | .reader => { record with readers := count }
  | .writer => { record with writers := count }

def readiness (record : PipeRecord) : End -> Readiness
  | .reader => ⟨decide (record.unread ≠ 0), false, decide (record.writers = 0), false⟩
  | .writer => ⟨false, decide (record.used < record.capacityPages), false,
      decide (record.readers = 0)⟩

end PipeRecord

namespace Pipe

def revisionAvailable (pipe : Pipe) : Bool :=
  match pipe.revision with
  | none => true
  | some revision => decide (revision ≠ wordLimit - 1)

def advanceRevision (pipe : Pipe) : Pipe :=
  { pipe with revision := pipe.revision.map (· + 1) }

def isBacked (pipe : Pipe) : Bool :=
  decide (pipe.state.capacity <= pipe.bytes.length) &&
    decide (pipe.state.capacityPages <= pipe.slots.length)

/-- The slot that holds the live page number `ordinal`. -/
def slotIndex (pipe : Pipe) (ordinal : Nat) : Nat :=
  (pipe.state.head + ordinal) % pipe.state.capacityPages

/-- One turn of the copy loop of `replaceStorage`. -/
def copyPage (pipe : Pipe) (storage : List UInt8 × List Page) (ordinal : Nat) :
    List UInt8 × List Page :=
  let old := pipe.slotIndex ordinal
  let page := pipe.slots.getD old default
  let source := old * pipe.state.pageSize + page.offset
  let dest := ordinal * pipe.state.pageSize + page.offset
  (overwrite storage.1 dest (slice pipe.bytes source page.len), storage.2.set ordinal page)

/-- Move the live pages to new storage, in ring order from its start. -/
def replaceStorage (pipe : Pipe) (bytes : List UInt8) (slots : List Page) : Except Error Pipe :=
  if bytes.length < pipe.state.capacity ∨ slots.length < pipe.state.capacityPages then
    .error .storage
  else if (List.range pipe.state.used).any (fun ordinal =>
      let page := pipe.slots.getD (pipe.slotIndex ordinal) default
      decide (page.len = 0 ∨ pipe.state.pageSize < page.offset + page.len)) then
    .error .corrupt
  else
    let moved := (List.range pipe.state.used).foldl pipe.copyPage
      (bytes, slots.map (fun _ => default))
    .ok { pipe with
      state := { pipe.state with head := 0 }
      bytes := moved.1
      slots := moved.2 }

def retain (pipe : Pipe) (endpoint : End) : Except Error Unit × Pipe :=
  if pipe.state.references endpoint = 0 then (.error .refcount, pipe)
  else
    match checkedAdd (pipe.state.references endpoint) 1 with
    | none => (.error .refcount, pipe)
    | some count => (.ok (), { pipe with state := pipe.state.setReferences count endpoint })

def release (pipe : Pipe) (endpoint : End) : Step Unit × Pipe :=
  if pipe.state.references endpoint = 1 ∧ pipe.revisionAvailable = false then
    (.quiet (.error .revisionExhausted), pipe)
  else if pipe.state.references endpoint = 0 then (.quiet (.error .refcount), pipe)
  else
    let count := pipe.state.references endpoint - 1
    let finalClose := decide (count = 0)
    let released := { pipe with state := pipe.state.setReferences count endpoint }
    (.changed () (decide (endpoint = .writer) && finalClose)
        (decide (endpoint = .reader) && finalClose),
      if finalClose then released.advanceRevision else released)

/-- Resize the ring, after the venue's growth limit and the live pages allow
it.  The live pages are rotated to the start of the storage. -/
def setCapacity (pipe : Pipe) (requested growthLimit : Nat) : Step Nat × Pipe :=
  match roundedCapacity pipe.state.pageSize requested with
  | .error error => (.quiet (.error error), pipe)
  | .ok capacity =>
    let pages := capacity / pipe.state.pageSize
    let oldPages := pipe.state.capacityPages
    let resized := { pipe.state with head := 0, capacityPages := pages }
    if pipe.state.capacity < capacity ∧ growthLimit < capacity then
      (.quiet (.error .permission), pipe)
    else if pages < pipe.state.used then (.quiet (.error .busy), pipe)
    else if pipe.bytes.isEmpty && pipe.slots.isEmpty then
      if pages = oldPages then (.quiet (.ok capacity), pipe)
      else if pipe.revisionAvailable = false then (.quiet (.error .revisionExhausted), pipe)
      else (.changed capacity false (decide (oldPages < pages)),
        { pipe with state := resized }.advanceRevision)
    else if pipe.bytes.length < capacity ∨ pipe.slots.length < pages then
      (.quiet (.error .storage), pipe)
    else if pages = oldPages then (.quiet (.ok capacity), pipe)
    else if pipe.revisionAvailable = false then (.quiet (.error .revisionExhausted), pipe)
    else (.changed capacity false (decide (oldPages < pages)),
      { pipe with
        state := resized
        bytes := rotateFront pipe.bytes pipe.state.capacity
          (pipe.state.head * pipe.state.pageSize)
        slots := rotateFront pipe.slots oldPages pipe.state.head }.advanceRevision)

end Pipe

/-! ## Staged reads -/

/-- A call of a copy callback: the chunk it was handed and the bytes of it it
delivered. -/
structure CopyCall where
  chunk : List UInt8
  delivered : Nat

/-- What a copy callback answers after its earlier calls. -/
abbrev CopyCallback := List CopyCall -> List UInt8 -> Nat

/-- The bytes a list of copy calls delivered, in order. -/
def deliveredBytes (calls : List CopyCall) : List UInt8 :=
  calls.flatMap fun call => call.chunk.take call.delivered

/-- A callback that takes every chunk whole. -/
def takeWhole : CopyCallback := fun _ chunk => chunk.length

/-- What a staged operation did: its result, the pipe after it and the calls
of its callback. -/
structure Transfer (Call : Type) where
  step : Step Nat
  pipe : Pipe
  calls : List Call

/-- The loop variables of a staged read. -/
structure ReadState where
  slots : List Page
  head : Nat
  used : Nat
  done : Nat
  calls : List CopyCall

/-- The edits of one turn of the read loop: the head page loses the delivered
bytes, and leaves the ring when none is left.  A peek keeps the metadata. -/
def ReadState.deliver (state : ReadState) (pages : Nat) (action : ReadAction)
    (call : CopyCall) : ReadState :=
  let page := state.slots.getD state.head default
  let slot : Page := ⟨page.offset + call.delivered, page.len - call.delivered⟩
  { slots := if action = .peek then state.slots else state.slots.set state.head slot
    head := if slot.len = 0 then (state.head + 1) % pages else state.head
    used := if slot.len = 0 then state.used - 1 else state.used
    done := state.done + call.delivered
    calls := state.calls ++ [call] }

/-- The loop of `readAction`.  Every turn but the last delivers at least one
byte, so `total` turns are enough. -/
def readLoop (pipe : Pipe) (copy : CopyCallback) (action : ReadAction) (total : Nat) :
    Nat -> ReadState -> Except Error Unit × ReadState
  | 0, state => (.ok (), state)
  | turns + 1, state =>
    if state.done < total then
      let page := state.slots.getD state.head default
      if page.len = 0 ∨ pipe.state.pageSize < page.offset + page.len then
        (.error .corrupt, state)
      else
        let n := min page.len (total - state.done)
        let start := state.head * pipe.state.pageSize + page.offset
        let chunk := slice pipe.bytes start n
        let delivered := min (copy state.calls chunk) n
        let next := state.deliver pipe.state.capacityPages action ⟨chunk, delivered⟩
        if delivered < n then (.ok (), next) else readLoop pipe copy action total turns next
    else (.ok (), state)

namespace Pipe

def readAction (pipe : Pipe) (max : Nat) (copy : CopyCallback) (action : ReadAction) :
    Transfer CopyCall :=
  if max = 0 then ⟨.quiet (.ok 0), pipe, []⟩
  else if pipe.state.unread = 0 then
    ⟨.quiet (if pipe.state.writers = 0 then .ok 0 else .error (.wouldBlock .readable)), pipe, []⟩
  else if action ≠ .peek ∧ pipe.revisionAvailable = false then
    ⟨.quiet (.error .revisionExhausted), pipe, []⟩
  else
    let total := min max pipe.state.unread
    let looped := readLoop pipe copy action total total
      ⟨pipe.slots, pipe.state.head, pipe.state.used, 0, []⟩
    match looped.1 with
    | .error error => ⟨.quiet (.error error), { pipe with slots := looped.2.slots }, looped.2.calls⟩
    | .ok () =>
      let consumed :=
        if action = .peek then { pipe with slots := looped.2.slots }
        else { pipe with
          slots := looped.2.slots
          state := { pipe.state with
            head := looped.2.head
            used := looped.2.used
            unread := pipe.state.unread - looped.2.done } }
      if looped.2.done = 0 then ⟨.quiet (.error .fault), consumed, looped.2.calls⟩
      else ⟨.changed looped.2.done false (decide (action ≠ .peek)),
        if action = .peek then consumed else consumed.advanceRevision, looped.2.calls⟩

def readWith (pipe : Pipe) (max : Nat) (copy : CopyCallback) : Transfer CopyCall :=
  pipe.readAction max copy .copyAndConsume

/-- A peek answers only a result; its pipe and calls are kept here, and the
wake set it drops is the one of `readAction`. -/
def peekWith (pipe : Pipe) (max : Nat) (copy : CopyCallback) : Transfer CopyCall :=
  pipe.readAction max copy .peek

def consume (pipe : Pipe) (count : Nat) : Transfer CopyCall :=
  if pipe.state.unread < count then ⟨.quiet (.error .invalid), pipe, []⟩
  else pipe.readAction count takeWhole .consume

end Pipe

/-! ## Staged writes -/

/-- A call of a fill callback: the source offset it was asked for, the chunk
as it left it and the bytes of it it filled. -/
structure FillCall where
  offset : Nat
  chunk : List UInt8
  filled : Nat

/-- What a fill callback does after its earlier calls.  It may write anything
into the chunk it borrows, but it cannot resize it. -/
structure FillCallback where
  call : List FillCall -> Nat -> List UInt8 -> List UInt8 × Nat
  length_eq : ∀ calls offset chunk, (call calls offset chunk).1.length = chunk.length

/-- The callback of `try_write`: it copies from its source as far as that goes. -/
def fillFrom (source : List UInt8) : FillCallback where
  call := fun _ offset chunk =>
    let piece := slice source offset chunk.length
    (piece ++ chunk.drop piece.length, piece.length)
  length_eq := by
    intro _ offset chunk
    have short : (slice source offset chunk.length).length <= chunk.length := by
      unfold slice
      rw [List.length_take]
      exact Nat.min_le_left _ _
    dsimp only
    rw [List.length_append, List.length_drop]
    omega

/-- The bytes a list of fill calls published, in order. -/
def filledBytes (calls : List FillCall) : List UInt8 :=
  calls.flatMap fun call => call.chunk.take call.filled

/-- The loop variables of a staged write. -/
structure WriteState where
  bytes : List UInt8
  slots : List Page
  used : Nat
  done : Nat
  faulted : Bool
  calls : List FillCall

/-- The merge of the remainder of `len` into the tail page, when it fits. -/
def mergeTail (pipe : Pipe) (fill : FillCallback) (len : Nat) : WriteState :=
  let pageSize := pipe.state.pageSize
  let remainder := len % pageSize
  let untouched : WriteState := ⟨pipe.bytes, pipe.slots, pipe.state.used, 0, false, []⟩
  if pipe.state.used ≠ 0 ∧ remainder ≠ 0 then
    let tail := pipe.slotIndex (pipe.state.used - 1)
    let page := pipe.slots.getD tail default
    let stop := page.offset + page.len
    if stop + remainder <= pageSize then
      let start := tail * pageSize + stop
      let answer := fill.call [] 0 (slice pipe.bytes start remainder)
      let n := min answer.2 remainder
      { bytes := overwrite pipe.bytes start answer.1
        slots := pipe.slots.set tail ⟨page.offset, page.len + n⟩
        used := pipe.state.used
        done := n
        faulted := decide (n < remainder)
        calls := [⟨0, answer.1, n⟩] }
    else untouched
  else untouched

/-- The loop of `writeWith`.  Every turn but the last takes a free page, so
`capacityPages` turns are enough. -/
def writeLoop (pipe : Pipe) (fill : FillCallback) (len : Nat) : Nat -> WriteState -> WriteState
  | 0, state => state
  | turns + 1, state =>
    if state.faulted = false ∧ state.done < len ∧ state.used < pipe.state.capacityPages then
      let tail := pipe.slotIndex state.used
      let n := min pipe.state.pageSize (len - state.done)
      let start := tail * pipe.state.pageSize
      let answer := fill.call state.calls state.done (slice state.bytes start n)
      let filled := min answer.2 n
      let next : WriteState := { state with
        bytes := overwrite state.bytes start answer.1
        calls := state.calls ++ [⟨state.done, answer.1, filled⟩] }
      if filled = 0 then { next with faulted := true }
      else writeLoop pipe fill len turns { next with
        slots := state.slots.set tail ⟨0, filled⟩
        used := state.used + 1
        done := state.done + filled
        faulted := decide (filled < n) }
    else state

namespace Pipe

def writeWith (pipe : Pipe) (len : Nat) (fill : FillCallback) : Transfer FillCall :=
  if len = 0 then ⟨.quiet (.ok 0), pipe, []⟩
  else if pipe.state.readers = 0 then ⟨.quiet (.error .brokenPipe), pipe, []⟩
  else if pipe.isBacked = false then ⟨.quiet (.error .storage), pipe, []⟩
  else if pipe.revisionAvailable = false then ⟨.quiet (.error .revisionExhausted), pipe, []⟩
  else
    let looped := writeLoop pipe fill len pipe.state.capacityPages (mergeTail pipe fill len)
    let written := { pipe with
      bytes := looped.bytes
      slots := looped.slots
      state := { pipe.state with
        used := looped.used
        unread := pipe.state.unread + looped.done } }
    if looped.done ≠ 0 then
      ⟨.changed looped.done true false, written.advanceRevision, looped.calls⟩
    else if looped.faulted then ⟨.quiet (.error .fault), written, looped.calls⟩
    else ⟨.quiet (.error (.wouldBlock .writable)), written, looped.calls⟩

end Pipe

end PipeCore
end Carrick
