import Carrick.Inotify.Records

namespace Carrick
namespace Inotify

open Foundation
open List (append_nil length_append length_cons length_drop length_nil length_replicate mem_cons_self nil_append take_left take_succ_cons take_zero)

/-!
# The queue as a log of events

The log is what the queue is for: the events that wait to be read and whether
later ones are being dropped.  The queue's calls are compared with the log's on
every run.
-/

/-- The events that wait, oldest first, and the latch of an overflow.  This is
what the byte queue is for. -/
structure Log where
  records : List Record
  latched : Bool

/-- How many of the oldest records fit a destination together. -/
def fitting : Nat -> List Record -> Nat
  | _, [] => 0
  | room, record :: records =>
    if record.len > room then 0 else fitting (room - record.len) records + 1

namespace Log

/-- Adds an event to a log whose records may take so many bytes. -/
def push (bytes : Nat) (log : Log) (record : Record) : Log × QueuePush :=
  if log.latched then (log, .dropped)
  else if log.records.getLast?.map Record.wire = some record.wire then (log, .coalesced)
  else if log.records.length >= inotifyMaxQueuedEvents then
    if (stored log.records).length + inotifyEventHeaderSize > bytes then (log, .noSpace)
    else
      ({ records := log.records ++ [InotifyEventQueue.overflowRecord], latched := true },
        .overflowed (log.records = []))
  else if (stored log.records).length + record.len > bytes then (log, .noSpace)
  else
    ({ records := log.records ++ [record], latched := false }, .appended (log.records = []))

/-- Takes the oldest records that fit, if the first one does. -/
def drain (log : Log) (room : Nat) : Log × Except LinuxErrno (List UInt8) :=
  match log.records with
  | [] => (log, .ok [])
  | first :: _ =>
    if first.len > room then (log, .error .einval)
    else
      let rest := log.records.drop (fitting room log.records)
      ({ records := rest, latched := if rest = [] then false else log.latched },
        .ok (stored (log.records.take (fitting room log.records))))

end Log

theorem fitting_greatest (room : Nat) (records : List Record) :
    fitting room records <= records.length ∧
      (stored (records.take (fitting room records))).length <= room ∧
      ∀ count, count <= records.length -> (stored (records.take count)).length <= room ->
        count <= fitting room records := by
  induction records generalizing room with
  | nil =>
    refine ⟨le_rfl, Nat.zero_le _, ?_⟩
    intro count within _
    exact within
  | cons record records ih =>
    simp only [fitting]
    split
    case isTrue large =>
      refine ⟨Nat.zero_le _, Nat.zero_le _, ?_⟩
      intro count within fits
      cases count with
      | zero => exact le_rfl
      | succ count =>
        rw [take_succ_cons, stored_cons, length_append, Record.length_wire] at fits
        omega
    case isFalse small =>
      rcases ih (room - record.len) with ⟨within, fits, greatest⟩
      refine ⟨Nat.succ_le_succ within, ?_, ?_⟩
      · rw [take_succ_cons, stored_cons, length_append, Record.length_wire]
        omega
      intro count bound short
      cases count with
      | zero => exact Nat.zero_le _
      | succ count =>
        rw [take_succ_cons, stored_cons, length_append, Record.length_wire] at short
        simp only [length_cons] at bound
        have most := greatest count (by omega) (by omega)
        omega

section Queue

variable {bytes : Nat} {queue : InotifyEventQueue bytes} {records : List Record}

theorem Holds.append (holds : Holds queue records) {record : Record} (fits : record.Representable)
    (room : queue.used + record.len <= bytes) (latch : Bool) :
    Holds
      ({ used := queue.used + record.len
         count := queue.count + 1
         tail := queue.used
         overflowed := latch
         buf := InotifyEventQueue.writeRecord queue.buf queue.used record } :
          InotifyEventQueue bytes)
      (records ++ [record]) := by
  have inside : queue.used + record.len <= queue.buf.length := by
    rw [holds.sized]
    exact room
  have wireLength := record.length_wire
  have written : InotifyEventQueue.writeRecord queue.buf queue.used record =
      queue.buf.take queue.used ++ record.wire ++
        queue.buf.drop (queue.used + record.wire.length) :=
    InotifyEventQueue.writeRecord_eq inside
  have front : (queue.buf.take queue.used ++ record.wire).length = queue.used + record.len := by
    rw [length_append, List.length_take, wireLength]
    omega
  constructor
  case sized =>
    change (InotifyEventQueue.writeRecord queue.buf queue.used record).length = bytes
    rw [InotifyEventQueue.writeRecord_eq inside, length_overwrite (by omega), holds.sized]
  case used =>
    change queue.used + record.len = _
    rw [stored_append, length_append, stored_cons, stored_nil, append_nil, wireLength,
      holds.used]
  case within => exact room
  case content =>
    change (InotifyEventQueue.writeRecord queue.buf queue.used record).take
      (queue.used + record.len) = _
    rw [written, <- front, take_left, holds.content, stored_append, stored_cons, stored_nil,
      append_nil]
  case count =>
    change queue.count + 1 = _
    rw [holds.count, length_append, List.length_singleton]
  case tail =>
    change queue.used = _
    rw [List.dropLast_concat, holds.used]
  case representable =>
    intro other member
    rcases List.mem_append.mp member with earlier | last
    · exact holds.representable other earlier
    · rw [List.mem_singleton.mp last]
      exact fits

theorem takeRecords_eq {buf : List UInt8} {used : Nat} (room : Nat) (before : List UInt8)
    (fuel counted : Nat)
    (representable : ∀ record ∈ records, record.Representable)
    (content : buf.take used = before ++ stored records)
    (length : used = before.length + (stored records).length)
    (started : before.length <= room) (enough : records.length <= fuel) :
    InotifyEventQueue.takeRecords buf used room fuel before.length counted =
      (before.length + (stored (records.take (fitting (room - before.length) records))).length,
        counted + fitting (room - before.length) records) := by
  induction records generalizing before fuel counted with
  | nil =>
    have done : ¬ before.length < used := by
      rw [length, stored_nil, length_nil]
      omega
    cases fuel with
    | zero => rfl
    | succ fuel =>
      simp only [InotifyEventQueue.takeRecords, if_neg done]
      rfl
  | cons record records ih =>
    have header := record.header_le
    have wireLength := record.length_wire
    rw [stored_cons] at content length
    rw [length_append] at length
    cases fuel with
    | zero => simp at enough
    | succ fuel =>
      have more : before.length < used := by
        unfold inotifyEventHeaderSize at header
        omega
      have measured := recordLenAt_eq content (representable record mem_cons_self)
      simp only [InotifyEventQueue.takeRecords, if_pos more, measured, fitting]
      by_cases large : record.len > room - before.length
      · rw [if_pos (by omega), if_pos large]
        rfl
      rw [if_neg (by omega), if_neg large]
      have next := ih (before ++ record.wire) fuel (counted + 1)
        (fun other member => representable other (List.mem_cons_of_mem _ member))
        (by rw [content, List.append_assoc])
        (by rw [length_append]; omega)
        (by rw [length_append]; omega)
        (by simpa using enough)
      rw [length_append, wireLength, <- Nat.sub_sub] at next
      rw [next, take_succ_cons, stored_cons, length_append, wireLength]
      congr 1 <;> omega

theorem length_le_stored (records : List Record) : records.length <= (stored records).length := by
  induction records with
  | nil => exact le_rfl
  | cons record records ih =>
    have header := record.header_le
    unfold inotifyEventHeaderSize at header
    rw [stored_cons, length_append, length_cons, Record.length_wire]
    omega

theorem stored_dropLast_drop {count : Nat} (left : records.drop count ≠ []) :
    (stored records.dropLast).length =
      (stored (records.take count)).length + (stored (records.drop count).dropLast).length := by
  have split : records.dropLast = records.take count ++ (records.drop count).dropLast := by
    rw [<- List.dropLast_append_of_ne_nil left, List.take_append_drop]
  rw [split, stored_append, length_append]

/-- Moving the remaining records to the front leaves a queue of them. -/
theorem Holds.drop (holds : Holds queue records) (count : Nat) (latch : Bool) :
    Holds
      ({ used := queue.used - (stored (records.take count)).length
         count := records.length - count
         tail := if records.length - count = 0 then 0
           else queue.tail - (stored (records.take count)).length
         overflowed := latch
         buf := overwrite queue.buf 0 (slice queue.buf (stored (records.take count)).length
           (queue.used - (stored (records.take count)).length)) } : InotifyEventQueue bytes)
      (records.drop count) := by
  have whole : stored records = stored (records.take count) ++ stored (records.drop count) := by
    rw [<- stored_append, List.take_append_drop]
  have lengths : queue.used = (stored (records.take count)).length +
      (stored (records.drop count)).length := by
    rw [holds.used, whole, length_append]
  have remaining : queue.used - (stored (records.take count)).length =
      (stored (records.drop count)).length := by
    omega
  have within := holds.within
  have sized := holds.sized
  have moved : slice queue.buf (stored (records.take count)).length
      (stored (records.drop count)).length = stored (records.drop count) :=
    slice_content holds.content (by rw [whole, append_nil])
  rw [remaining, moved]
  constructor
  case sized =>
    exact (length_overwrite (by omega)).trans sized
  case used => rfl
  case within =>
    change (stored (records.drop count)).length <= bytes
    omega
  case content =>
    change (overwrite queue.buf 0 (stored (records.drop count))).take _ = _
    simp only [overwrite, take_zero, nil_append]
    exact take_left
  case count => exact length_drop.symm
  case tail =>
    by_cases none : records.drop count = []
    · have zero : records.length - count = 0 := by
        rw [<- length_drop, none, length_nil]
      simp only [if_pos zero, none]
      rfl
    have some : ¬ records.length - count = 0 := by
      rw [<- length_drop]
      exact fun zero => none (List.length_eq_zero_iff.mp zero)
    have last := stored_dropLast_drop none
    simp only [if_neg some]
    rw [holds.tail]
    omega
  case representable =>
    intro record member
    exact holds.representable record (List.mem_of_mem_drop member)

end Queue

/-- The queue and the log tell the same story. -/
structure Agrees {bytes : Nat} (queue : InotifyEventQueue bytes) (log : Log) : Prop where
  holds : Holds queue log.records
  latch : queue.overflowed = log.latched

/-- An event that the wire format can carry, if the buffer can hold it at all. -/
def Sendable (bytes : Nat) (record : Record) : Prop :=
  record.len <= bytes -> record.Representable

section Calls

variable {bytes : Nat} {queue : InotifyEventQueue bytes} {log : Log}

theorem overflowRecord_representable : InotifyEventQueue.overflowRecord.Representable :=
  show 16 - 16 < 2 ^ 32 by decide

theorem push_agrees (agrees : Agrees queue log) {record : Record} (sendable : Sendable bytes record) :
    Agrees (queue.push record).1 (log.push bytes record).1 ∧
      (queue.push record).2 = (log.push bytes record).2 := by
  have same : queue.tailEquals record = true <->
      log.records.getLast?.map Record.wire = some record.wire := by
    rw [tailEquals_iff agrees.holds, Option.map_eq_some_iff]
  have used := agrees.holds.used
  have count := agrees.holds.count
  unfold InotifyEventQueue.push Log.push
  rw [agrees.latch]
  by_cases latched : log.latched = true
  · rw [if_pos latched, if_pos latched]
    exact ⟨agrees, rfl⟩
  rw [if_neg latched, if_neg latched]
  by_cases repeated : log.records.getLast?.map Record.wire = some record.wire
  · rw [if_pos (same.mpr repeated), if_pos repeated]
    exact ⟨agrees, rfl⟩
  rw [if_neg (fun equal => repeated (same.mp equal)), if_neg repeated]
  simp only [used, count, List.length_eq_zero_iff]
  by_cases full : log.records.length >= inotifyMaxQueuedEvents
  · rw [if_pos full, if_pos full]
    by_cases tight : (stored log.records).length + inotifyEventHeaderSize > bytes
    · rw [if_pos tight, if_pos tight]
      exact ⟨agrees, rfl⟩
    rw [if_neg tight, if_neg tight]
    have appended := agrees.holds.append overflowRecord_representable
      (show queue.used + InotifyEventQueue.overflowRecord.len <= bytes by
        rw [used]
        exact Nat.le_of_not_lt tight) true
    rw [used, count] at appended
    exact ⟨⟨appended, rfl⟩, rfl⟩
  rw [if_neg full, if_neg full]
  by_cases tight : (stored log.records).length + record.len > bytes
  · rw [if_pos tight, if_pos tight]
    exact ⟨agrees, rfl⟩
  rw [if_neg tight, if_neg tight]
  have appended := agrees.holds.append (sendable (by omega))
    (show queue.used + record.len <= bytes by omega) false
  rw [used, count] at appended
  rw [Bool.not_eq_true] at latched
  rw [latched]
  exact ⟨⟨appended, rfl⟩, rfl⟩

theorem push_unchanged (queue : InotifyEventQueue bytes) (record : Record)
    (refused : (queue.push record).2 = .coalesced ∨ (queue.push record).2 = .dropped ∨
      (queue.push record).2 = .noSpace) : (queue.push record).1 = queue := by
  unfold InotifyEventQueue.push at refused ⊢
  split at refused <;> rename_i latched
  · rw [if_pos latched]
  rw [if_neg latched]
  split at refused <;> rename_i repeated
  · rw [if_pos repeated]
  rw [if_neg repeated]
  simp only at refused ⊢
  split at refused <;> rename_i full
  · rw [if_pos full]
    split at refused <;> rename_i tight
    · rw [if_pos tight]
    · simp at refused
  · rw [if_neg full]
    split at refused <;> rename_i tight
    · rw [if_pos tight]
    · simp at refused

/-- One drain of the queue is one drain of the log: the same result, and the
bytes of the records it took at the front of the destination. -/
theorem drain_agrees (agrees : Agrees queue log) (dest : List UInt8) :
    Agrees (queue.drainInto dest).1 (log.drain dest.length).1 ∧
      match (log.drain dest.length).2 with
      | .ok moved => (queue.drainInto dest).2 =
          (moved ++ dest.drop moved.length, .ok moved.length)
      | .error errno => queue.drainInto dest = (queue, dest, .error errno) := by
  have holds := agrees.holds
  have count := holds.count
  unfold InotifyEventQueue.drainInto Log.drain
  cases recordsAre : log.records with
  | nil =>
    have none : queue.count = 0 := by
      rw [count, recordsAre, length_nil]
    rw [if_pos none]
    exact ⟨agrees, rfl⟩
  | cons first rest =>
    have some : ¬ queue.count = 0 := by
      rw [count, recordsAre, length_cons]
      omega
    have content : queue.buf.take queue.used = [] ++ (first.wire ++ stored rest) := by
      rw [holds.content, recordsAre, stored_cons, nil_append]
    have measured : InotifyEventQueue.recordLenAt queue.buf 0 = first.len :=
      recordLenAt_eq content (holds.representable first (by rw [recordsAre]; exact mem_cons_self))
    rw [if_neg some, measured]
    simp only
    by_cases large : first.len > dest.length
    · rw [if_pos large, if_pos large]
      exact ⟨agrees, rfl⟩
    rw [if_neg large, if_neg large, <- recordsAre]
    have whole : stored log.records = stored (log.records.take (fitting dest.length
        log.records)) ++ stored (log.records.drop (fitting dest.length log.records)) := by
      rw [<- stored_append, List.take_append_drop]
    have walk : InotifyEventQueue.takeRecords queue.buf queue.used dest.length queue.used 0 0 =
        ((stored (log.records.take (fitting dest.length log.records))).length,
          fitting dest.length log.records) := by
      have counted := takeRecords_eq dest.length [] queue.used 0 holds.representable
        (by rw [holds.content, nil_append]) (by rw [holds.used]; simp)
        (Nat.zero_le _) (by rw [holds.used]; exact length_le_stored _)
      simpa using counted
    generalize fitting dest.length log.records = number at whole walk
    have taken : slice queue.buf 0 (stored (log.records.take number)).length =
        stored (log.records.take number) :=
      @slice_content _ _ _ [] _ _ holds.content whole
    have left : queue.count - number = 0 <-> log.records.drop number = [] := by
      rw [count, <- length_drop, List.length_eq_zero_iff]
    have dropped := holds.drop number (if log.records.drop number = [] then false
      else log.latched)
    simp only [walk, taken, left, agrees.latch]
    rw [<- count] at dropped
    simp only [left] at dropped
    refine ⟨⟨dropped, rfl⟩, ?_⟩
    simp only [overwrite, take_zero, nil_append, Nat.zero_add]

end Calls

inductive Call where
  | push (record : Record)
  | drainInto (dest : List UInt8)

def InotifyEventQueue.perform {bytes : Nat} (queue : InotifyEventQueue bytes) :
    Call -> InotifyEventQueue bytes
  | .push record => (queue.push record).1
  | .drainInto dest => (queue.drainInto dest).1

def Log.perform (bytes : Nat) (log : Log) : Call -> Log
  | .push record => (log.push bytes record).1
  | .drainInto dest => (log.drain dest.length).1

/-- The condition on the events of a run. -/
def Call.Sendable (bytes : Nat) : Call -> Prop
  | .push record => Inotify.Sendable bytes record
  | .drainInto _ => True

/-- A queue that behaves as the log of its events in every further call: the
same bytes, counts and latch, the same answer to a push and the same records to
a read. -/
structure Exact {bytes : Nat} (queue : InotifyEventQueue bytes) (log : Log) : Prop where
  content : queue.buf.take queue.used = stored log.records
  used : queue.used = (stored log.records).length
  count : queue.count = log.records.length
  tail : queue.tail = (stored log.records.dropLast).length
  latch : queue.overflowed = log.latched
  pushed : ∀ record, Sendable bytes record ->
    (queue.push record).2 = (log.push bytes record).2
  unchanged : ∀ record, (queue.push record).2 = .coalesced ∨
    (queue.push record).2 = .dropped ∨ (queue.push record).2 = .noSpace ->
      (queue.push record).1 = queue
  drained : ∀ dest moved, (log.drain dest.length).2 = .ok moved ->
    (queue.drainInto dest).2 = (moved ++ dest.drop moved.length, .ok moved.length)
  invalid : ∀ dest errno, (log.drain dest.length).2 = .error errno ->
    queue.drainInto dest = (queue, dest, .error errno)
  longest : ∀ room count, count <= log.records.length ->
    (stored (log.records.take count)).length <= room ->
      count <= fitting room log.records ∧
        (stored (log.records.take (fitting room log.records))).length <= room

section Runs

variable {bytes : Nat}

theorem new_agrees : Agrees (InotifyEventQueue.new bytes) { records := [], latched := false } where
  holds :=
    { sized := length_replicate
      used := rfl
      within := Nat.zero_le _
      content := rfl
      count := rfl
      tail := rfl
      representable := fun _ member => absurd member List.not_mem_nil }
  latch := rfl

variable {queue : InotifyEventQueue bytes}

theorem Agrees.exact {log : Log} (agrees : Agrees queue log) :
    Exact queue log where
  content := agrees.holds.content
  used := agrees.holds.used
  count := agrees.holds.count
  tail := agrees.holds.tail
  latch := agrees.latch
  pushed := fun _ sendable => (push_agrees agrees sendable).2
  unchanged := push_unchanged queue
  drained := by
    intro dest moved result
    have step := (drain_agrees agrees dest).2
    rw [result] at step
    exact step
  invalid := by
    intro dest errno result
    have step := (drain_agrees agrees dest).2
    rw [result] at step
    exact step
  longest := by
    intro room count within fits
    have greatest := fitting_greatest room log.records
    exact ⟨greatest.2.2 count within fits, greatest.2.1⟩

theorem perform_agrees {log : Log} (agrees : Agrees queue log)
    {call : Call} (sendable : call.Sendable bytes) :
    Agrees (queue.perform call) (log.perform bytes call) := by
  cases call with
  | push record => exact (push_agrees agrees sendable).1
  | drainInto dest => exact (drain_agrees agrees dest).1

theorem run_agrees {log : Log} (agrees : Agrees queue log)
    {calls : List Call} (sendable : ∀ call ∈ calls, call.Sendable bytes) :
    Agrees (calls.foldl InotifyEventQueue.perform queue) (calls.foldl (Log.perform bytes) log) := by
  induction calls generalizing queue log with
  | nil => exact agrees
  | cons call calls ih =>
    exact ih (perform_agrees agrees (sendable call mem_cons_self))
      (fun other member => sendable other (List.mem_cons_of_mem _ member))

/-- On every run of events whose names the wire format can describe, the queue
is exactly the log of its events. -/
theorem queue_exact {calls : List Call}
    (sendable : ∀ call ∈ calls, call.Sendable bytes) :
    Exact (calls.foldl InotifyEventQueue.perform (InotifyEventQueue.new bytes))
      (calls.foldl (Log.perform bytes) { records := [], latched := false }) :=
  (run_agrees new_agrees sendable).exact

/-- A short buffer, a second event that does not fit, and a read. -/
theorem queue_exact_short :
    Exact
      (List.foldl InotifyEventQueue.perform (InotifyEventQueue.new 40)
        [.push { wd := 1, mask := 2, cookie := 0, name := none },
          .push { wd := 1, mask := 0x100, cookie := 0, name := some (List.replicate 30 110) },
          .drainInto (List.replicate 30 0)])
      (List.foldl (Log.perform 40) { records := [], latched := false }
        [.push { wd := 1, mask := 2, cookie := 0, name := none },
          .push { wd := 1, mask := 0x100, cookie := 0, name := some (List.replicate 30 110) },
          .drainInto (List.replicate 30 0)]) := by
  refine queue_exact ?_
  intro call member
  simp only [List.mem_cons, List.not_mem_nil, or_false] at member
  rcases member with rfl | rfl | rfl
  · exact fun _ => show 16 - 16 < 2 ^ 32 by decide
  · exact fun _ => show 48 - 16 < 2 ^ 32 by decide
  · trivial

theorem push_new {record : Record} (fits : record.len <= bytes) :
    (InotifyEventQueue.new bytes).push record =
      ({ used := 0 + record.len
         count := 0 + 1
         tail := 0
         overflowed := false
         buf := InotifyEventQueue.writeRecord (List.replicate bytes 0) 0 record },
        .appended true) := by
  have absent : (InotifyEventQueue.new bytes).tailEquals record = false := by
    simp [InotifyEventQueue.tailEquals, InotifyEventQueue.new]
  unfold InotifyEventQueue.push
  rw [absent]
  simp only [InotifyEventQueue.new, Bool.false_eq_true, if_false, decide_true, Nat.zero_add]
  rw [if_neg (by decide), if_neg (Nat.not_lt.mpr fits)]

/-- A record whose name the length field takes for no name is torn by a read
of one header. -/
theorem wrapped_record_torn {record : Record} (fits : record.len <= bytes)
    (large : 32 <= record.len)
    (wraps : (record.len - inotifyEventHeaderSize) % 2 ^ 32 = 0) :
    (((InotifyEventQueue.new bytes).push record).1.drainInto (List.replicate 16 0)).2.2 =
      .ok 16 := by
  have inside : 0 + record.len <= (List.replicate bytes (0 : UInt8)).length := by
    rw [length_replicate]
    omega
  rw [push_new fits]
  simp only
  rw [InotifyEventQueue.writeRecord_eq inside]
  have content : (overwrite (List.replicate bytes 0) 0 record.wire).take record.wire.length =
      [] ++ (record.wire ++ []) := by
    simp only [overwrite, take_zero, nil_append, append_nil]
    exact take_left
  have measured := recordLenAt_wire content
  rw [wraps] at measured
  generalize overwrite (List.replicate bytes 0) 0 record.wire = buf at measured
  have walk : InotifyEventQueue.takeRecords buf (0 + record.len) 16 (0 + record.len) 0 0 =
      (16, 1) := by
    rcases Nat.exists_eq_add_of_le large with ⟨more, lengthIs⟩
    rw [lengthIs, show 0 + (32 + more) = (30 + more) + 1 + 1 by omega]
    have first : InotifyEventQueue.recordLenAt buf 0 = 16 := measured
    simp only [InotifyEventQueue.takeRecords, first]
    rw [if_pos (by omega), if_neg (by omega), if_pos (by omega), if_pos]
    simp only [InotifyEventQueue.recordLenAt, inotifyEventHeaderSize]
    omega
  unfold InotifyEventQueue.drainInto
  have first : InotifyEventQueue.recordLenAt buf 0 = 16 := measured
  simp only [first, length_replicate, walk]
  rfl

/-- An event whose name takes four gigabytes. -/
def longRecord : Record where
  wd := 1
  mask := 0x100
  cookie := 0
  name := some (List.replicate (2 ^ 32 - 1) 110)

theorem len_longRecord : longRecord.len = 16 + 2 ^ 32 := by
  unfold Record.len longRecord
  rw [Option.map_some, length_replicate, encodedRecordLen]
  decide

/-- A name of four gigabytes in a queue that can hold it: the queue reports the
event stored, and a read that cannot hold the record returns its header. -/
theorem long_name_is_torn :
    (0 : UInt8) ∉ longRecord.name.getD [] ∧
      ((InotifyEventQueue.new (2 ^ 33)).push longRecord).2 = .appended true ∧
      16 < longRecord.len ∧
      (((InotifyEventQueue.new (2 ^ 33)).push longRecord).1.drainInto
        (List.replicate 16 0)).2.2 = .ok 16 := by
  have length := len_longRecord
  have fits : longRecord.len <= 2 ^ 33 := by
    rw [length]
    decide
  refine ⟨?_, ?_, ?_, ?_⟩
  · intro member
    have byte : (0 : UInt8) = 110 := List.eq_of_mem_replicate member
    exact absurd byte (by decide)
  · rw [push_new fits]
  · rw [length]
    decide
  refine wrapped_record_torn fits ?_ ?_
  · rw [length]
    decide
  · rw [length]
    decide

end Runs

end Inotify
end Carrick
