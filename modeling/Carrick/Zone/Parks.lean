import Carrick.Zone.Timers

namespace Carrick
namespace Zone

open Foundation

/-!
# Parks beside lock-free claims

Wakers and requeues hold the lock of a bucket while they walk its queue, one entry a
step.  The host takes the claim of a parked record without any lock, between any two
of those steps, and unlinks the record's entries afterwards; a timer looks up a
bucket before it takes the lock.
-/

/-- What a thread is doing, with what it has read.  An errand is one operation
between its accesses to shared words. -/
inductive Errand where
  | idle
  | planning (bucket mm uaddr bitset count cursor : Nat) (vetted : List Nat)
  | waking (bucket mm uaddr bitset cursor left : Nat) (vetted : List Nat)
  | serving (batch : Bool) (bucket mm uaddr bitset cursor left : Nat)
  | moving (source target mm origin destination cursor left : Nat)
  | picked (record seq : Nat)
  | expiring (record seq entry bucket : Nat)
  deriving DecidableEq

/-- `wins` counts how often a record's last park was ended; the code does not keep it. -/
structure Parks where
  zone : Tables
  lock : Nat -> Option Nat
  errand : Nat -> Errand
  wins : Nat -> Option Nat

/-- One futex that a park waits on. -/
structure Wait where
  mm : Nat
  uaddr : Nat
  bitset : Nat
  deriving DecidableEq

/-- `startWake` is a wake from EL1; `startServe` one from the host, through a batch or
not, with `left` waiters to go. -/
inductive Deed where
  | park (record : Nat) (waits : List Wait)
  | own (record : Nat) (claim : Claim)
  | claimHost (record : Nat)
  | flag (record : Nat) (cancelled hostRequested : Bool)
  | unlinkOne (record : Nat)
  | finish (record : Nat) (claim : Claim)
  | interrupt (record slot result : Nat)
  | startWake (thread mm uaddr bitset count : Nat)
  | plan (thread : Nat) (placeable : Bool)
  | wake (thread slot : Nat)
  | startServe (thread : Nat) (batch : Bool) (mm uaddr bitset left : Nat)
  | serve (thread : Nat) (place : Option Nat)
  | startMove (thread mm origin destination count : Nat)
  | move (thread : Nat)
  | pick (thread record seq : Nat)
  | look (thread : Nat)
  | giveUp (thread : Nat)
  | settle (thread slot result : Nat)

/-- A record that runs, may run or is free: nobody waits for it on a futex. -/
def Claim.settled : Claim -> Bool
  | .parked _ => false
  | .transferring _ _ _ => false
  | _ => true

/-- A record whose park may be published. -/
def Claim.parks : Claim -> Bool
  | .free => true
  | .onCpu _ _ => true
  | _ => false

/-- Every entry of a park, in order, until the entries run out. -/
def Tables.enrol (zone : Tables) (record seq : Nat) : Nat -> List Wait -> Tables × Bool
  | _, [] => (zone, true)
  | index, wait :: rest =>
    (zone.enqueue (bucketOf wait.mm wait.uaddr) record seq wait.mm wait.uaddr wait.bitset
      index).elim (zone, false) (fun queued => queued.enrol record seq (index + 1) rest)

/-- What a host wake makes of a waiter: one that waits on this futex alone is placed in
the guest where there is a slot, unless the wake goes through a batch. -/
def Tables.hostClaim (zone : Tables) (record seq : Nat) (batch : Bool) (place : Option Nat) :
    Claim :=
  if batch = false ∧ (zone.record record).entryCount = 1 then
    match place with
    | some slot => .queued slot seq
    | none => .transferring seq false false
  else .transferring seq false false

namespace Parks

def setErrand (state : Parks) (thread : Nat) (errand : Errand) : Parks :=
  { state with errand := Function.update state.errand thread errand }

def hold (state : Parks) (bucket thread : Nat) : Parks :=
  { state with lock := Function.update state.lock bucket (some thread) }

def drop (state : Parks) (bucket : Nat) : Parks :=
  { state with lock := Function.update state.lock bucket none }

/-- The owner of a record changes its claim. -/
def setClaim (state : Parks) (record : Nat) (claim : Claim) : Parks :=
  { state with
    zone := state.zone.setRecord record { state.zone.record record with claim := claim } }

/-- The step that takes a record out of its park counts as a win. -/
def won (state : Parks) (record : Nat) (zone : Tables) : Parks :=
  { state with
    zone := zone
    wins := Function.update state.wins record ((state.wins record).map (· + 1)) }

/-- The owner of a record parks it under the locks of all its buckets.  Where the
entries run out, or the record was asked for meanwhile, nothing is published and the
owner undoes its enrolment. -/
def park (state : Parks) (record : Nat) (waits : List Wait) : Parks :=
  let enrolled := state.zone.enrol record (state.zone.nextSeq record) 0 waits
  if enrolled.2 ∧ (state.zone.record record).claim.parks then
    { state with
      zone := enrolled.1.publishPark record (state.zone.nextSeq record)
      wins := Function.update state.wins record (some 0) }
  else { state with zone := enrolled.1.unlinkAll record (zoneEntries + 1) }

/-- An entry of a record that the host has claimed is unlinked under its lock. -/
def unlinkFirst (state : Parks) (record : Nat) : Parks :=
  { state with
    zone := (state.zone.unlink (enrolledBucket state.zone record)
      (state.zone.record record).firstEntry).dropEntry record
        (state.zone.record record).firstEntry }

/-- The first pass of an EL1 wake at its cursor. -/
def planAt (state : Parks) (thread bucket mm uaddr bitset count cursor : Nat) (vetted : List Nat)
    (placeable : Bool) : Parks :=
  if cursor = 0 ∨ vetted.length = count then
    state.setErrand thread (.waking bucket mm uaddr bitset (state.zone.bucket bucket).head
      vetted.length vetted)
  else
    match state.zone.eligible mm uaddr bitset cursor with
    | none => state.setErrand thread (.planning bucket mm uaddr bitset count
        (state.zone.entry cursor).next vetted)
    | some record =>
      if (state.zone.record record).entryCount ≠ 1 ∨ placeable = false then
        (state.drop bucket).setErrand thread .idle
      else state.setErrand thread (.planning bucket mm uaddr bitset count
        (state.zone.entry cursor).next (cursor :: vetted))

/-- Its second pass, which claims whatever is eligible now. -/
def wakeAt (state : Parks) (thread bucket mm uaddr bitset cursor left : Nat) (vetted : List Nat)
    (slot : Nat) : Parks :=
  if cursor = 0 ∨ left = 0 then (state.drop bucket).setErrand thread .idle
  else
    match state.zone.eligible mm uaddr bitset cursor with
    | none => state.setErrand thread (.waking bucket mm uaddr bitset
        (state.zone.entry cursor).next left vetted)
    | some record =>
      (state.won record (state.zone.claimEntry bucket cursor record
        (.queued slot (state.zone.entry cursor).seq)
        (state.zone.wokenHandback record))).setErrand thread
          (.waking bucket mm uaddr bitset (state.zone.entry cursor).next (left - 1) vetted)

def serveAt (state : Parks) (thread : Nat) (batch : Bool) (bucket mm uaddr bitset cursor left : Nat)
    (place : Option Nat) : Parks :=
  if cursor = 0 ∨ left = 0 then (state.drop bucket).setErrand thread .idle
  else
    match state.zone.eligible mm uaddr bitset cursor with
    | none => state.setErrand thread (.serving batch bucket mm uaddr bitset
        (state.zone.entry cursor).next left)
    | some record =>
      (state.won record (state.zone.claimEntry bucket cursor record
        (state.zone.hostClaim record (state.zone.entry cursor).seq batch place)
        (if batch then .woken else state.zone.wokenHandback record))).setErrand thread
          (.serving batch bucket mm uaddr bitset (state.zone.entry cursor).next (left - 1))

def moveAt (state : Parks) (thread source target mm origin destination cursor left : Nat) : Parks :=
  if cursor = 0 ∨ left = 0 then ((state.drop source).drop target).setErrand thread .idle
  else
    match Tables.requeueVisit source target mm origin destination state.zone cursor with
    | none => state.setErrand thread (.moving source target mm origin destination
        (state.zone.entry cursor).next left)
    | some zone => { state with zone := zone }.setErrand thread (.moving source target mm origin
        destination (state.zone.entry cursor).next (left - 1))

/-- `expire_timer` once it has the lock of the bucket that it read. -/
def settleAt (state : Parks) (thread record seq entry bucket slot result : Nat) : Parks :=
  if (state.zone.entry entry).bucket ≠ bucket ∨ (state.zone.record record).claim ≠ .parked seq then
    state.setErrand thread .idle
  else
    (state.won record (state.zone.expireEntry bucket entry record slot seq result)).setErrand thread
      .idle

/-- One step; there is none where a thread is not at that point, where a lock is held
by somebody else, or where a record is not its owner's to change. -/
def next (state : Parks) : Deed -> Option Parks
  | .park record waits =>
    if record ≠ 0 ∧ (state.zone.record record).claim.settled ∧
        ∀ wait ∈ waits, state.lock (bucketOf wait.mm wait.uaddr) = none then
      some (state.park record waits)
    else none
  | .own record claim =>
    if (state.zone.record record).claim.settled ∧ claim.isParked = false then
      some (state.setClaim record claim)
    else none
  | .claimHost record =>
    match (state.zone.record record).claim with
    | .parked seq =>
      some (state.won record (state.zone.setRecord record
        { state.zone.record record with claim := .transferring seq false false }))
    | _ => none
  | .flag record cancelled hostRequested =>
    match (state.zone.record record).claim with
    | .transferring seq _ _ =>
      some (state.setClaim record (.transferring seq cancelled hostRequested))
    | _ => none
  | .unlinkOne record =>
    match (state.zone.record record).claim with
    | .transferring _ _ _ =>
      if (state.zone.record record).firstEntry ≠ 0 ∧
          state.lock (enrolledBucket state.zone record) = none then
        some (state.unlinkFirst record)
      else none
    | _ => none
  | .finish record claim =>
    match (state.zone.record record).claim with
    | .transferring _ _ _ =>
      if (state.zone.record record).firstEntry = 0 ∧ claim.isParked = false then
        some (state.setClaim record claim)
      else none
    | _ => none
  | .interrupt record slot result =>
    match (state.zone.record record).claim with
    | .parked seq =>
      if (state.zone.record record).entryCount = 1 ∧
          (state.zone.record record).firstEntry ≠ 0 ∧
          (state.zone.entry (state.zone.record record).firstEntry).record = record ∧
          (state.zone.entry (state.zone.record record).firstEntry).seq = seq ∧
          state.lock (enrolledBucket state.zone record) = none then
        some (state.won record (state.zone.expireEntry (enrolledBucket state.zone record)
          (state.zone.record record).firstEntry record slot seq result))
      else none
    | _ => none
  | .startWake thread mm uaddr bitset count =>
    if state.errand thread = .idle ∧ state.lock (bucketOf mm uaddr) = none then
      some ((state.hold (bucketOf mm uaddr) thread).setErrand thread
        (.planning (bucketOf mm uaddr) mm uaddr bitset count
          (state.zone.bucket (bucketOf mm uaddr)).head []))
    else none
  | .plan thread placeable =>
    match state.errand thread with
    | .planning bucket mm uaddr bitset count cursor vetted =>
      some (state.planAt thread bucket mm uaddr bitset count cursor vetted placeable)
    | _ => none
  | .wake thread slot =>
    match state.errand thread with
    | .waking bucket mm uaddr bitset cursor left vetted =>
      some (state.wakeAt thread bucket mm uaddr bitset cursor left vetted slot)
    | _ => none
  | .startServe thread batch mm uaddr bitset left =>
    if state.errand thread = .idle ∧ state.lock (bucketOf mm uaddr) = none then
      some ((state.hold (bucketOf mm uaddr) thread).setErrand thread
        (.serving batch (bucketOf mm uaddr) mm uaddr bitset
          (state.zone.bucket (bucketOf mm uaddr)).head left))
    else none
  | .serve thread place =>
    match state.errand thread with
    | .serving batch bucket mm uaddr bitset cursor left =>
      some (state.serveAt thread batch bucket mm uaddr bitset cursor left place)
    | _ => none
  | .startMove thread mm origin destination count =>
    if state.errand thread = .idle ∧ state.lock (bucketOf mm origin) = none ∧
        state.lock (bucketOf mm destination) = none then
      some (((state.hold (bucketOf mm origin) thread).hold (bucketOf mm destination)
        thread).setErrand thread (.moving (bucketOf mm origin) (bucketOf mm destination) mm origin
          destination (state.zone.bucket (bucketOf mm origin)).head count))
    else none
  | .move thread =>
    match state.errand thread with
    | .moving source target mm origin destination cursor left =>
      some (state.moveAt thread source target mm origin destination cursor left)
    | _ => none
  | .pick thread record seq =>
    if state.errand thread = .idle ∧ (state.zone.record record).claim = .parked seq then
      some (state.setErrand thread (.picked record seq))
    else none
  | .look thread =>
    match state.errand thread with
    | .picked record seq =>
      if (state.zone.record record).firstEntry = 0 then some (state.setErrand thread .idle)
      else some (state.setErrand thread (.expiring record seq
        (state.zone.record record).firstEntry (enrolledBucket state.zone record)))
    | _ => none
  | .giveUp thread =>
    match state.errand thread with
    | .picked _ _ => some (state.setErrand thread .idle)
    | .expiring _ _ _ _ => some (state.setErrand thread .idle)
    | _ => none
  | .settle thread slot result =>
    match state.errand thread with
    | .expiring record seq entry bucket =>
      if state.lock bucket = none then
        some (state.settleAt thread record seq entry bucket slot result)
      else none
    | _ => none

end Parks

end Zone
end Carrick
