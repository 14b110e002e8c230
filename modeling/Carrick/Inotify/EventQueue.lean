import Carrick.Foundation.Slice
import Mathlib.Algebra.Group.Nat.Defs

namespace Carrick
namespace Inotify

open Foundation

/-!
# The inotify event queue

Records lie one after another in a fixed buffer, in the form `read` returns
them.  The queue keeps how many bytes and records there are, where the last
record starts, and whether an overflow marker is waiting to be read.
-/

/-- The bytes of a word in the order of the machine, low byte first. -/
def toNeBytes (word : UInt32) : List UInt8 :=
  [UInt8.ofNat word.toNat, UInt8.ofNat (word.toNat / 2 ^ 8), UInt8.ofNat (word.toNat / 2 ^ 16),
    UInt8.ofNat (word.toNat / 2 ^ 24)]

def fromNeBytes (bytes : List UInt8) : UInt32 :=
  UInt32.ofNat (bytes.foldr (fun byte rest => byte.toNat + 256 * rest) 0)

def inotifyEventHeaderSize : Nat := 16

def inotifyMaxQueuedEvents : Nat := 16384

def linuxInQOverflow : UInt32 := 0x4000

inductive LinuxErrno where
  | einval
  | enospc
  deriving DecidableEq, Repr

/-- An event as it is handed to the queue. -/
structure Record where
  wd : Int32
  mask : UInt32
  cookie : UInt32
  name : Option (List UInt8)
  deriving DecidableEq

/-- The size of a record: the header and the name with its terminator, padded
to four bytes. -/
def encodedRecordLen : Option Nat -> Nat
  | none => inotifyEventHeaderSize
  | some length => inotifyEventHeaderSize + (length + 1 + 3) / 4 * 4

/-- The size of the record of an event. -/
def Record.len (record : Record) : Nat :=
  encodedRecordLen (record.name.map List.length)

inductive QueuePush where
  | appended (wasEmpty : Bool)
  | coalesced
  | overflowed (wasEmpty : Bool)
  | dropped
  | noSpace
  deriving DecidableEq, Repr

structure InotifyEventQueue (bytes : Nat) where
  used : Nat
  count : Nat
  tail : Nat
  overflowed : Bool
  buf : List UInt8

namespace InotifyEventQueue

variable {bytes : Nat}

/-- The empty queue over a zeroed buffer. -/
def new (bytes : Nat) : InotifyEventQueue bytes where
  used := 0
  count := 0
  tail := 0
  overflowed := false
  buf := List.replicate bytes 0

/-- Writes one record: the four words of the header, the name and its padding. -/
def writeRecord (buf : List UInt8) (start : Nat) (record : Record) : List UInt8 :=
  let nameField := UInt32.ofNat (record.len - inotifyEventHeaderSize)
  let buf := overwrite buf start (toNeBytes record.wd.toUInt32)
  let buf := overwrite buf (start + 4) (toNeBytes record.mask)
  let buf := overwrite buf (start + 8) (toNeBytes record.cookie)
  let buf := overwrite buf (start + 12) (toNeBytes nameField)
  match record.name with
  | none => buf
  | some name =>
    let buf := overwrite buf (start + inotifyEventHeaderSize) name
    overwrite buf (start + inotifyEventHeaderSize + name.length)
      (List.replicate (record.len - inotifyEventHeaderSize - name.length) 0)

/-- The last record has the bytes of this event. -/
def tailEquals (queue : InotifyEventQueue bytes) (record : Record) : Bool :=
  if queue.count = 0 then false
  else if queue.used - queue.tail ≠ record.len then false
  else
    let field (offset : Nat) := fromNeBytes (slice queue.buf (queue.tail + offset) 4)
    if (field 0).toInt32 ≠ record.wd ∨ field 4 ≠ record.mask ∨ field 8 ≠ record.cookie then false
    else
      match record.name with
      | none => true
      | some name =>
        let start := queue.tail + inotifyEventHeaderSize
        slice queue.buf start name.length = name &&
          (slice queue.buf (start + name.length)
            (record.len - inotifyEventHeaderSize - name.length)).all (fun byte => byte = 0)

def overflowRecord : Record where
  wd := -1
  mask := linuxInQOverflow
  cookie := 0
  name := none

def push (queue : InotifyEventQueue bytes) (record : Record) : InotifyEventQueue bytes × QueuePush :=
  if queue.overflowed then (queue, .dropped)
  else if queue.tailEquals record then (queue, .coalesced)
  else
    let wasEmpty : Bool := queue.count = 0
    if queue.count >= inotifyMaxQueuedEvents then
      if queue.used + inotifyEventHeaderSize > bytes then (queue, .noSpace)
      else
        ({ used := queue.used + inotifyEventHeaderSize
           count := queue.count + 1
           tail := queue.used
           overflowed := true
           buf := writeRecord queue.buf queue.used overflowRecord }, .overflowed wasEmpty)
    else if queue.used + record.len > bytes then (queue, .noSpace)
    else
      ({ queue with
          used := queue.used + record.len
          count := queue.count + 1
          tail := queue.used
          buf := writeRecord queue.buf queue.used record }, .appended wasEmpty)

/-- The size of the record that starts at an offset, from its header. -/
def recordLenAt (buf : List UInt8) (start : Nat) : Nat :=
  inotifyEventHeaderSize + (fromNeBytes (slice buf (start + 12) 4)).toNat

/-- The bytes and the number of the records that fit a destination.  Every
record has a header, so the used bytes bound the rounds. -/
def takeRecords (buf : List UInt8) (used room : Nat) : Nat -> Nat -> Nat -> Nat × Nat
  | 0, taken, records => (taken, records)
  | fuel + 1, taken, records =>
    if taken < used then
      let len := recordLenAt buf taken
      if taken + len > room then (taken, records)
      else takeRecords buf used room fuel (taken + len) (records + 1)
    else (taken, records)

/-- Moves whole records into the destination, oldest first. -/
def drainInto (queue : InotifyEventQueue bytes) (dest : List UInt8) :
    InotifyEventQueue bytes × List UInt8 × Except LinuxErrno Nat :=
  if queue.count = 0 then (queue, dest, .ok 0)
  else if recordLenAt queue.buf 0 > dest.length then (queue, dest, .error .einval)
  else
    let found := takeRecords queue.buf queue.used dest.length queue.used 0 0
    let taken := found.1
    let dest := overwrite dest 0 (slice queue.buf 0 taken)
    let buf := overwrite queue.buf 0 (slice queue.buf taken (queue.used - taken))
    let count := queue.count - found.2
    ({ used := queue.used - taken
       count := count
       tail := if count = 0 then 0 else queue.tail - taken
       overflowed := if count = 0 then false else queue.overflowed
       buf := buf }, dest, .ok taken)

end InotifyEventQueue

end Inotify
end Carrick
