import Carrick.Foundation.Reach
import Mathlib.Data.List.MinMax

namespace Carrick
namespace RecordLocks

open Foundation

/-!
# The record-lock table

Byte-range locks are kept in one table for all files and owners.  A request is
refused while a lock of another owner overlaps it and one of the two is a write
lock; a granted request replaces what its owner held of the range.  A blocking
request is polled: as long as it is refused, the table publishes an edge from
its owner to the owner of the lock that stands in its way, and a poll searches
the published edges before it adds one between two processes.

`flock` locks live beside the record locks and are released with them when an
open file description goes away.
-/

/-! ## Owners, ranges and locks -/

inductive LeaseFileId where
  | inode (dev ino : Nat)
  | path (name : String)
  deriving DecidableEq, Repr

inductive LogicalRecordLockOwner where
  | process (pid : Int) (serial : Nat)
  | ofd (description : Nat)
  deriving DecidableEq, Repr

structure TaskKey where
  id : Int
  serial : Nat
  deriving DecidableEq, Repr

namespace LogicalRecordLockOwner

def ofTaskKey (key : TaskKey) : LogicalRecordLockOwner := .process key.id key.serial

/-- A process lock always conflicts with one of an open file description. -/
def conflictsWith : LogicalRecordLockOwner -> LogicalRecordLockOwner -> Bool
  | .process firstPid firstSerial, .process secondPid secondSerial =>
    firstPid ≠ secondPid || firstSerial ≠ secondSerial
  | .ofd first, .ofd second => first ≠ second
  | .process _ _, .ofd _ => true
  | .ofd _, .process _ _ => true

theorem conflictsWith_iff (first second : LogicalRecordLockOwner) :
    first.conflictsWith second = true <-> first ≠ second := by
  cases first with
  | process firstPid firstSerial =>
    cases second with
    | process secondPid secondSerial =>
      simp only [conflictsWith, Bool.or_eq_true, decide_eq_true_eq, ne_eq, process.injEq]
      tauto
    | ofd description => simp [conflictsWith]
  | ofd description =>
    cases second with
    | process pid serial => simp [conflictsWith]
    | ofd other => simp [conflictsWith]

def isProcess : LogicalRecordLockOwner -> Bool
  | .process _ _ => true
  | .ofd _ => false

end LogicalRecordLockOwner

structure LogicalRecordLockRange where
  start : Nat
  stop : Nat
  deriving DecidableEq, Repr

namespace LogicalRecordLockRange

def overlaps (range other : LogicalRecordLockRange) : Bool :=
  range.start < other.stop && other.start < range.stop

theorem overlaps_iff (range other : LogicalRecordLockRange) :
    range.overlaps other = true <-> range.start < other.stop ∧ other.start < range.stop := by
  simp [overlaps]

def Holds (range : LogicalRecordLockRange) (byte : Nat) : Prop :=
  range.start <= byte ∧ byte < range.stop

instance (range : LogicalRecordLockRange) (byte : Nat) : Decidable (range.Holds byte) :=
  inferInstanceAs (Decidable (_ ∧ _))

theorem Holds.overlaps {range other : LogicalRecordLockRange} {byte : Nat}
    (first : range.Holds byte) (second : other.Holds byte) : range.overlaps other = true :=
  (overlaps_iff range other).mpr
    ⟨Nat.lt_of_le_of_lt first.1 second.2, Nat.lt_of_le_of_lt second.1 first.2⟩

end LogicalRecordLockRange

structure LogicalRecordLock where
  file : LeaseFileId
  owner : LogicalRecordLockOwner
  range : LogicalRecordLockRange
  write : Bool
  deriving DecidableEq, Repr

structure LogicalFlock where
  file : LeaseFileId
  owner : Nat
  write : Bool
  deriving DecidableEq, Repr

structure LogicalRecordLockRequest where
  file : LeaseFileId
  owner : LogicalRecordLockOwner
  range : LogicalRecordLockRange
  write : Bool
  deriving DecidableEq, Repr

/-- The lock a granted request becomes. -/
def LogicalRecordLockRequest.lock (request : LogicalRecordLockRequest) : LogicalRecordLock where
  file := request.file
  owner := request.owner
  range := request.range
  write := request.write

inductive LinuxErrno where
  | eagain
  | edeadlk
  deriving DecidableEq, Repr

/-! ## The table -/

abbrev RecordLockWaitId := Nat

/-- A published edge: the waiting owner and the owner it is blocked on. -/
abbrev WaitEdge := LogicalRecordLockOwner × LogicalRecordLockOwner

structure LogicalRecordLockState where
  locks : List LogicalRecordLock
  flocks : List LogicalFlock
  waitingOn : List (RecordLockWaitId × WaitEdge)
  deriving DecidableEq, Repr

namespace LogicalRecordLockState

def empty : LogicalRecordLockState where
  locks := []
  flocks := []
  waitingOn := []

/-- The published edges, without the waits they belong to. -/
def edges (state : LogicalRecordLockState) : List WaitEdge := state.waitingOn.map Prod.snd

end LogicalRecordLockState

/-- The lock stands in the way of the request. -/
def LogicalRecordLock.blocks (lock : LogicalRecordLock) (request : LogicalRecordLockRequest) :
    Bool :=
  lock.file = request.file && lock.owner.conflictsWith request.owner &&
    lock.range.overlaps request.range && (lock.write || request.write)

theorem LogicalRecordLock.blocks_iff (lock : LogicalRecordLock)
    (request : LogicalRecordLockRequest) :
    lock.blocks request = true <-> lock.file = request.file ∧ lock.owner ≠ request.owner ∧
      lock.range.overlaps request.range = true ∧ (lock.write = true ∨ request.write = true) := by
  unfold LogicalRecordLock.blocks
  rw [Bool.and_eq_true, Bool.and_eq_true, Bool.and_eq_true, decide_eq_true_eq,
    LogicalRecordLockOwner.conflictsWith_iff, Bool.or_eq_true, and_assoc, and_assoc]

/-- The first of the blocking locks with the lowest start. -/
def conflictLocked (locks : List LogicalRecordLock) (request : LogicalRecordLockRequest) :
    Option LogicalRecordLock :=
  (locks.filter (fun lock => lock.blocks request)).argmin (fun lock => lock.range.start)

theorem conflictLocked_none {locks : List LogicalRecordLock} {request : LogicalRecordLockRequest} :
    conflictLocked locks request = none <->
      ∀ lock ∈ locks, lock.blocks request = false := by
  unfold conflictLocked
  rw [List.argmin_eq_none, List.filter_eq_nil_iff]
  simp

theorem conflictLocked_some {locks : List LogicalRecordLock} {request : LogicalRecordLockRequest}
    {lock : LogicalRecordLock} (found : conflictLocked locks request = some lock) :
    lock ∈ locks ∧ lock.blocks request = true := by
  have listed := List.argmin_mem found
  rw [List.mem_filter] at listed
  exact listed

/-- What is left of one lock when its owner gives up a range of the file. -/
def LogicalRecordLock.without (file : LeaseFileId) (owner : LogicalRecordLockOwner)
    (range : LogicalRecordLockRange) (lock : LogicalRecordLock) : List LogicalRecordLock :=
  if lock.file ≠ file || lock.owner ≠ owner || !lock.range.overlaps range then [lock]
  else
    (if lock.range.start < range.start then
      [{ lock with range := { lock.range with stop := range.start } }] else []) ++
    (if range.stop < lock.range.stop then
      [{ lock with range := { lock.range with start := range.stop } }] else [])

def replaceOwnerRange (locks : List LogicalRecordLock) (file : LeaseFileId)
    (owner : LogicalRecordLockOwner) (range : LogicalRecordLockRange) : List LogicalRecordLock :=
  locks.flatMap (LogicalRecordLock.without file owner range)

/-- A granted request replaces its owner's locks over its range. -/
def grant (locks : List LogicalRecordLock) (request : LogicalRecordLockRequest) :
    List LogicalRecordLock :=
  replaceOwnerRange locks request.file request.owner request.range ++ [request.lock]

namespace LogicalRecordLockState

def trySet (state : LogicalRecordLockState) (request : LogicalRecordLockRequest) :
    LogicalRecordLockState × Except LinuxErrno Unit :=
  match conflictLocked state.locks request with
  | some _ => (state, .error .eagain)
  | none => ({ state with locks := grant state.locks request }, .ok ())

def unlock (state : LogicalRecordLockState) (file : LeaseFileId)
    (owner : LogicalRecordLockOwner) (range : LogicalRecordLockRange) : LogicalRecordLockState :=
  { state with locks := replaceOwnerRange state.locks file owner range }

def releaseFileOwner (state : LogicalRecordLockState) (file : LeaseFileId)
    (owner : LogicalRecordLockOwner) : LogicalRecordLockState :=
  { state with locks := state.locks.filter (fun lock => lock.file ≠ file || lock.owner ≠ owner) }

def releaseOwner (state : LogicalRecordLockState) (key : TaskKey) : LogicalRecordLockState :=
  { state with
    locks := state.locks.filter (fun lock => lock.owner ≠ LogicalRecordLockOwner.ofTaskKey key) }

def tryFlock (state : LogicalRecordLockState) (file : LeaseFileId) (owner : Nat) (write : Bool) :
    LogicalRecordLockState × Except LinuxErrno Unit :=
  if state.flocks.any (fun lock => lock.file = file && lock.owner ≠ owner && (lock.write || write))
  then (state, .error .eagain)
  else
    ({ state with
      flocks := state.flocks.filter (fun lock => lock.file ≠ file || lock.owner ≠ owner) ++
        [⟨file, owner, write⟩] }, .ok ())

def unlockFlock (state : LogicalRecordLockState) (file : LeaseFileId) (owner : Nat) :
    LogicalRecordLockState :=
  { state with flocks := state.flocks.filter (fun lock => lock.file ≠ file || lock.owner ≠ owner) }

def releaseOfd (state : LogicalRecordLockState) (file : LeaseFileId) (owner : Nat) :
    LogicalRecordLockState :=
  { state with
    locks := state.locks.filter (fun lock => lock.file ≠ file || lock.owner ≠ .ofd owner)
    flocks := state.flocks.filter (fun lock => lock.file ≠ file || lock.owner ≠ owner) }

/-! ## Waiting requests -/

/-- Would `me` blocking on `blocker` close a cycle of published edges? -/
def wouldDeadlock (state : LogicalRecordLockState) (me blocker : LogicalRecordLockOwner) : Bool :=
  (search (targets state.edges) me (state.edges.length + 2) [] [blocker]).getD false

def retractWait (state : LogicalRecordLockState) (wait : RecordLockWaitId) :
    LogicalRecordLockState :=
  { state with waitingOn := state.waitingOn.filter (fun entry => entry.1 ≠ wait) }

/-- Publishes the wait's edge, in place of the one it had. -/
def publishWait (state : LogicalRecordLockState) (wait : RecordLockWaitId) (edge : WaitEdge) :
    LogicalRecordLockState :=
  { state with waitingOn := (state.retractWait wait).waitingOn ++ [(wait, edge)] }

/-- One step of a blocking request. -/
def pollSetLocked (state : LogicalRecordLockState) (request : LogicalRecordLockRequest)
    (wait : RecordLockWaitId) : LogicalRecordLockState × Except LinuxErrno Unit :=
  match conflictLocked state.locks request with
  | none => ({ state with locks := grant state.locks request }.retractWait wait, .ok ())
  | some blocker =>
    if request.owner.isProcess && blocker.owner.isProcess &&
        state.wouldDeadlock request.owner blocker.owner then
      (state.retractWait wait, .error .edeadlk)
    else (state.publishWait wait (request.owner, blocker.owner), .error .eagain)

theorem pollSetLocked_cases (state : LogicalRecordLockState) (request : LogicalRecordLockRequest)
    (wait : RecordLockWaitId) :
    (conflictLocked state.locks request = none ∧
      state.pollSetLocked request wait =
        ({ state with locks := grant state.locks request }.retractWait wait, .ok ())) ∨
    ∃ blocker, conflictLocked state.locks request = some blocker ∧
      ((request.owner.isProcess = true ∧ blocker.owner.isProcess = true ∧
          state.wouldDeadlock request.owner blocker.owner = true ∧
          state.pollSetLocked request wait = (state.retractWait wait, .error .edeadlk)) ∨
        ((request.owner.isProcess = true -> blocker.owner.isProcess = true ->
            state.wouldDeadlock request.owner blocker.owner = false) ∧
          state.pollSetLocked request wait =
            (state.publishWait wait (request.owner, blocker.owner), .error .eagain))) := by
  unfold pollSetLocked
  cases conflict : conflictLocked state.locks request with
  | none => exact .inl ⟨rfl, rfl⟩
  | some blocker =>
    refine .inr ⟨blocker, rfl, ?_⟩
    by_cases closing : (request.owner.isProcess && blocker.owner.isProcess &&
        state.wouldDeadlock request.owner blocker.owner) = true
    · left
      simp only [closing, if_true]
      rw [Bool.and_eq_true, Bool.and_eq_true] at closing
      exact ⟨closing.1.1, closing.1.2, closing.2, trivial⟩
    right
    simp only [closing]
    refine ⟨?_, rfl⟩
    intro waiter holder
    simpa [waiter, holder] using closing

end LogicalRecordLockState

/-! ## The system of requests -/

/-- A blocking request with the token its edge is published under. -/
structure LogicalRecordLockWait where
  id : RecordLockWaitId
  request : LogicalRecordLockRequest
  deriving DecidableEq, Repr

/-- The table, the counter of wait tokens, and the blocking requests that have
not been answered or given up. -/
structure LogicalRecordLocks where
  state : LogicalRecordLockState
  nextWaitId : Nat
  waits : List LogicalRecordLockWait
  deriving DecidableEq, Repr

inductive Event where
  | trySet (request : LogicalRecordLockRequest)
  | unlock (file : LeaseFileId) (owner : LogicalRecordLockOwner) (range : LogicalRecordLockRange)
  | releaseFileOwner (file : LeaseFileId) (owner : LogicalRecordLockOwner)
  | releaseOwner (key : TaskKey)
  | tryFlock (file : LeaseFileId) (owner : Nat) (write : Bool)
  | unlockFlock (file : LeaseFileId) (owner : Nat)
  | releaseOfd (file : LeaseFileId) (owner : Nat)
  | mintWait (request : LogicalRecordLockRequest)
  | poll (wait : LogicalRecordLockWait)
  | retract (wait : LogicalRecordLockWait)
  deriving DecidableEq, Repr

namespace LogicalRecordLocks

def default : LogicalRecordLocks where
  state := .empty
  nextWaitId := 0
  waits := []

/-- Tokens come from an atomic 64-bit counter. -/
def mintWait (table : LogicalRecordLocks) (request : LogicalRecordLockRequest) :
    LogicalRecordLocks :=
  { table with
    nextWaitId := (table.nextWaitId + 1) % 2 ^ 64
    waits := table.waits ++ [⟨table.nextWaitId, request⟩] }

/-- A poll that is answered with anything but `EAGAIN` settles its wait. -/
def poll (table : LogicalRecordLocks) (wait : LogicalRecordLockWait) :
    LogicalRecordLocks × Except LinuxErrno Unit :=
  match table.state.pollSetLocked wait.request wait.id with
  | (state, .error .eagain) => ({ table with state := state }, .error .eagain)
  | (state, answer) => ({ table with state := state, waits := table.waits.erase wait }, answer)

theorem poll_state (table : LogicalRecordLocks) (wait : LogicalRecordLockWait) :
    (table.poll wait).1.state = (table.state.pollSetLocked wait.request wait.id).1 := by
  unfold poll
  split <;> simp_all

theorem poll_answer (table : LogicalRecordLocks) (wait : LogicalRecordLockWait) :
    (table.poll wait).2 = (table.state.pollSetLocked wait.request wait.id).2 := by
  unfold poll
  split <;> simp_all

theorem poll_waits (table : LogicalRecordLocks) (wait : LogicalRecordLockWait) :
    (table.poll wait).1.waits =
      if (table.poll wait).2 = .error .eagain then table.waits else table.waits.erase wait := by
  unfold poll
  split
  · rfl
  · rename_i state answer settled outcome
    rw [if_neg settled]

/-- The death of a wait, or its interruption by a signal. -/
def retract (table : LogicalRecordLocks) (wait : LogicalRecordLockWait) : LogicalRecordLocks :=
  { table with state := table.state.retractWait wait.id, waits := table.waits.erase wait }

/-- One atomic step under the table's mutex.  Only a wait that is still alive is
polled or given up. -/
def step (table : LogicalRecordLocks) : Event -> Option LogicalRecordLocks
  | .trySet request => some { table with state := (table.state.trySet request).1 }
  | .unlock file owner range => some { table with state := table.state.unlock file owner range }
  | .releaseFileOwner file owner =>
    some { table with state := table.state.releaseFileOwner file owner }
  | .releaseOwner key => some { table with state := table.state.releaseOwner key }
  | .tryFlock file owner write => some { table with state := (table.state.tryFlock file owner write).1 }
  | .unlockFlock file owner => some { table with state := table.state.unlockFlock file owner }
  | .releaseOfd file owner => some { table with state := table.state.releaseOfd file owner }
  | .mintWait request => some (table.mintWait request)
  | .poll wait => if wait ∈ table.waits then some (table.poll wait).1 else none
  | .retract wait => if wait ∈ table.waits then some (table.retract wait) else none

theorem step_poll {table after : LogicalRecordLocks} {wait : LogicalRecordLockWait}
    (taken : table.step (.poll wait) = some after) :
    wait ∈ table.waits ∧ (table.poll wait).1 = after := by
  have guarded : (if wait ∈ table.waits then some (table.poll wait).1 else none) = some after :=
    taken
  split_ifs at guarded with listed
  exact ⟨listed, Option.some.inj guarded⟩

theorem step_retract {table after : LogicalRecordLocks} {wait : LogicalRecordLockWait}
    (taken : table.step (.retract wait) = some after) :
    wait ∈ table.waits ∧ table.retract wait = after := by
  have guarded : (if wait ∈ table.waits then some (table.retract wait) else none) = some after :=
    taken
  split_ifs at guarded with listed
  exact ⟨listed, Option.some.inj guarded⟩

end LogicalRecordLocks

end RecordLocks
end Carrick
