import Mathlib.Algebra.Group.Nat.Defs
import Mathlib.Logic.Function.Basic
import Carrick.Foundation.LinkPath
import Carrick.Foundation.Run

namespace Carrick
namespace Zone

open Foundation

/-!
# Futex queues of the scheduling zone

A parked record waits on one or more futexes.  Each wait is an entry, and an entry
is on two intrusive lists at once: the doubly linked queue of its hash bucket, and
the chain of its record's entries.  Entries, buckets and records are tables that
are shared with the guest; index zero is no entry.

The functions follow the code with the bucket lock held.  Where a woken record may
run is decided by the run queues, which are not part of this model: a placement is
a parameter that may read everything.
-/

/-- `ZONE_ENTRIES`. -/
def zoneEntries : Nat := 8192

/-- `ZONE_BUCKETS`. -/
def zoneBuckets : Nat := 1024

/-- The bucket that an address hashes to: `mix` on 64-bit words. -/
def bucketOf (mm uaddr : Nat) : Nat :=
  let mixed := (mm * 0x9E3779B97F4A7C15 % 2 ^ 64) ^^^ (uaddr >>> 2)
  let folded := mixed ^^^ (mixed >>> 29)
  let spread := folded * 0xBF58476D1CE4E5B9 % 2 ^ 64
  (spread ^^^ (spread >>> 32)) % zoneBuckets

structure ZoneEntry where
  next : Nat
  prev : Nat
  record : Nat
  sibling : Nat
  bucket : Nat
  seq : Nat
  bitset : Nat
  index : Nat
  mm : Nat
  uaddr : Nat
  deriving DecidableEq

structure ZoneBucket where
  head : Nat
  tail : Nat
  len : Nat
  deriving DecidableEq

/-- The owner of a record.  The claims of a first entry, which never parks before
it has run, are left out. -/
inductive Claim where
  | free
  | parked (seq : Nat)
  | queued (slot seq : Nat)
  | onCpu (slot seq : Nat)
  | onCpuRequested (slot seq : Nat)
  | transferring (seq : Nat) (cancelled hostRequested : Bool)
  | host (seq : Nat)
  deriving DecidableEq

inductive Handback where
  | woken
  | resumed
  | timeout
  | signal
  | control
  | cancelled
  | service
  | groupStop
  deriving DecidableEq

structure ZoneRecord where
  claim : Claim
  result : Nat
  handback : Option Handback
  firstEntry : Nat
  entryCount : Nat
  lastSeq : Nat
  deadline : Nat
  objectOperation : Bool
  deriving DecidableEq

structure Tables where
  entry : Nat -> ZoneEntry
  bucket : Nat -> ZoneBucket
  record : Nat -> ZoneRecord
  entryMap : Nat -> Bool

inductive WakeRefusal where
  | multiEntry
  | unplaceable
  deriving DecidableEq

namespace Tables

def setEntry (zone : Tables) (id : Nat) (entry : ZoneEntry) : Tables :=
  { zone with entry := Function.update zone.entry id entry }

def setBucket (zone : Tables) (bucket : Nat) (value : ZoneBucket) : Tables :=
  { zone with bucket := Function.update zone.bucket bucket value }

def setRecord (zone : Tables) (record : Nat) (value : ZoneRecord) : Tables :=
  { zone with record := Function.update zone.record record value }

def setMap (zone : Tables) (id : Nat) (used : Bool) : Tables :=
  { zone with entryMap := Function.update zone.entryMap id used }

/-! ## The lists -/

def linkTail (zone : Tables) (bucket id : Nat) : Tables :=
  let tail := (zone.bucket bucket).tail
  let placed := zone.setEntry id { zone.entry id with prev := tail, next := 0, bucket := bucket }
  let linked :=
    if tail = 0 then placed.setBucket bucket { placed.bucket bucket with head := id }
    else placed.setEntry tail { placed.entry tail with next := id }
  linked.setBucket bucket
    { linked.bucket bucket with tail := id, len := (linked.bucket bucket).len + 1 }

def unlink (zone : Tables) (bucket id : Nat) : Tables :=
  let prev := (zone.entry id).prev
  let next := (zone.entry id).next
  let forward :=
    if prev = 0 then zone.setBucket bucket { zone.bucket bucket with head := next }
    else zone.setEntry prev { zone.entry prev with next := next }
  let backward :=
    if next = 0 then forward.setBucket bucket { forward.bucket bucket with tail := prev }
    else forward.setEntry next { forward.entry next with prev := prev }
  let cleared := backward.setEntry id { backward.entry id with prev := 0, next := 0 }
  cleared.setBucket bucket
    { cleared.bucket bucket with len := (cleared.bucket bucket).len - 1 }

/-- The first free index, with index zero reserved. -/
def allocEntry (zone : Tables) : Option Nat :=
  (List.range zoneEntries).find? (fun id => id ≠ 0 && !zone.entryMap id)

/-- A new entry at the head of its record's chain. -/
def chainEntry (zone : Tables) (id record seq mm uaddr bitset index : Nat) : Tables :=
  ((zone.setMap id true).setEntry id
      { zone.entry id with
        record := record, seq := seq, mm := mm, uaddr := uaddr, bitset := bitset, index := index,
        sibling := (zone.record record).firstEntry }).setRecord record
    { zone.record record with
      firstEntry := id, entryCount := (zone.record record).entryCount + 1 }

def enqueue (zone : Tables) (bucket record seq mm uaddr bitset index : Nat) : Option Tables :=
  match zone.allocEntry with
  | none => none
  | some id => some ((zone.chainEntry id record seq mm uaddr bitset index).linkTail bucket id)

/-- The loop of `drop_entry` over the links of a chain; the link is the record's
first entry for `holder = 0`, and the sibling of `holder` otherwise. -/
def dropLink (zone : Tables) (record id : Nat) : Nat -> Nat -> Tables
  | 0, _ => zone
  | fuel + 1, holder =>
    let current := if holder = 0 then (zone.record record).firstEntry
      else (zone.entry holder).sibling
    if current = 0 then zone
    else if current = id then
      let stored :=
        if holder = 0 then
          zone.setRecord record
            { zone.record record with firstEntry := (zone.entry id).sibling }
        else zone.setEntry holder { zone.entry holder with sibling := (zone.entry id).sibling }
      stored.setRecord record
        { stored.record record with entryCount := (stored.record record).entryCount - 1 }
    else dropLink zone record id fuel current

/-- A chain is no longer than the table of entries. -/
def dropEntry (zone : Tables) (record id : Nat) : Tables :=
  let dropped := zone.dropLink record id (zoneEntries + 1) 0
  (dropped.setEntry id { dropped.entry id with record := 0 }).setMap id false

/-! ## Parks -/

/-- The sequence number of a record's next park, which is never zero. -/
def nextSeq (zone : Tables) (record : Nat) : Nat :=
  let seq := ((zone.record record).lastSeq + 1) % 2 ^ 32
  if seq = 0 then 1 else seq

def publishPark (zone : Tables) (record seq : Nat) : Tables :=
  zone.setRecord record
    { zone.record record with lastSeq := seq, handback := none, claim := .parked seq }

def withdrawGuestPark (zone : Tables) (bucket record : Nat) : Tables :=
  let entry := (zone.record record).firstEntry
  let withdrawn := if entry = 0 then zone else (zone.unlink bucket entry).dropEntry record entry
  withdrawn.setRecord record { withdrawn.record record with deadline := 0 }

/-- A park of the running record: an entry that cannot be published is withdrawn. -/
def publishGuestPark (zone : Tables) (bucket record seq : Nat) : Tables :=
  match (zone.record record).claim with
  | .free => zone.publishPark record seq
  | .onCpu _ _ => zone.publishPark record seq
  | _ => zone.withdrawGuestPark bucket record

/-- The loop of `unlink_all`; no requeue runs beside it here. -/
def unlinkAll (zone : Tables) (record : Nat) : Nat -> Tables
  | 0 => zone
  | fuel + 1 =>
    let id := (zone.record record).firstEntry
    if id = 0 then zone
    else unlinkAll ((zone.unlink (zone.entry id).bucket id).dropEntry record id) record fuel

/-! ## Wakes -/

/-- The record that an entry wakes, if it is a live park of the futex. -/
def eligible (zone : Tables) (mm uaddr bitset id : Nat) : Option Nat :=
  if (zone.entry id).mm ≠ mm ∨ (zone.entry id).uaddr ≠ uaddr ∨
      (zone.entry id).bitset &&& bitset = 0 then none
  else if (zone.entry id).record = 0 then none
  else if (zone.record (zone.entry id).record).claim = .parked (zone.entry id).seq then
    some (zone.entry id).record
  else none

/-- The handback that `mark_woken` stores. -/
def wokenHandback (zone : Tables) (record : Nat) : Handback :=
  if (zone.record record).objectOperation then .resumed else .woken

/-- A record that was parked is claimed, and its entry leaves both lists. -/
def claimEntry (zone : Tables) (bucket id record : Nat) (claim : Claim) (handback : Handback) :
    Tables :=
  ((zone.setRecord record
      { zone.record record with
        claim := claim, result := (zone.entry id).index, handback := some handback }).unlink bucket
    id).dropEntry record id

/-- The first pass of an EL1 wake. -/
def plan (zone : Tables) (mm uaddr bitset : Nat) (placement : Nat -> Option Nat) :
    Nat -> Nat -> Nat -> Except WakeRefusal Nat
  | 0, _, _ => .ok 0
  | _ + 1, _, 0 => .ok 0
  | fuel + 1, cursor, count + 1 =>
    if cursor = 0 then .ok 0
    else
      match zone.eligible mm uaddr bitset cursor with
      | none => zone.plan mm uaddr bitset placement fuel (zone.entry cursor).next (count + 1)
      | some record =>
        if (zone.record record).entryCount ≠ 1 then .error .multiEntry
        else if placement record = none then .error .unplaceable
        else
          match zone.plan mm uaddr bitset placement fuel (zone.entry cursor).next count with
          | .ok planned => .ok (planned + 1)
          | .error refusal => .error refusal

/-- A walk along a bucket's queue: the next entry is read before the visit, and a
visit that does something counts.  The visited entries that counted are listed. -/
def walk (visit : Tables -> Nat -> Option Tables) : Nat -> Nat -> Nat -> Tables -> Tables × List Nat
  | 0, _, _, zone => (zone, [])
  | _ + 1, _, 0, zone => (zone, [])
  | fuel + 1, cursor, limit + 1, zone =>
    if cursor = 0 then (zone, [])
    else
      match visit zone cursor with
      | none => walk visit fuel (zone.entry cursor).next (limit + 1) zone
      | some later =>
        ((walk visit fuel (zone.entry cursor).next limit later).1,
          cursor :: (walk visit fuel (zone.entry cursor).next limit later).2)

/-- A wake's visit; `claim` is the claim that the waker takes with its handback. -/
def wakeVisit (bucket mm uaddr bitset : Nat) (claim : Tables -> Nat -> Nat -> Claim × Handback)
    (zone : Tables) (id : Nat) : Option Tables :=
  match zone.eligible mm uaddr bitset id with
  | none => none
  | some record =>
    some (zone.claimEntry bucket id record (claim zone record (zone.entry id).seq).1
      (claim zone record (zone.entry id).seq).2)

/-- As many rounds as a queue and what a requeue appends to it have. -/
def rounds : Nat := 2 * zoneEntries + 1

/-- `wake` from EL1 on `slot`: `place` is where the waiter is queued in the end. -/
def wakeEl1 (zone : Tables) (bucket mm uaddr bitset count : Nat)
    (placement : Tables -> Nat -> Option Nat) (place : Tables -> Nat -> Nat) :
    Except WakeRefusal (Tables × List Nat) :=
  match zone.plan mm uaddr bitset (placement zone) rounds (zone.bucket bucket).head count with
  | .error refusal => .error refusal
  | .ok limit =>
    .ok (walk (wakeVisit bucket mm uaddr bitset
      (fun zone record seq => (.queued (place zone record) seq, zone.wokenHandback record))) rounds
        (zone.bucket bucket).head limit zone)

/-- `wake` from the host, which takes at most as many records as fit its batch. -/
def wakeBatch (zone : Tables) (bucket mm uaddr bitset count batch : Nat) : Tables × List Nat :=
  walk (wakeVisit bucket mm uaddr bitset (fun _ _ seq => (.transferring seq false false, .woken)))
    rounds (zone.bucket bucket).head (min count batch) zone

/-- The loop of a requeue over batches of 64 for the waiters that it wakes. -/
def wakeLoop (bucket mm uaddr : Nat) : Nat -> Nat -> Tables -> Tables × List Nat
  | 0, _, zone => (zone, [])
  | fuel + 1, remaining, zone =>
    if remaining = 0 then (zone, [])
    else
      let batch := zone.wakeBatch bucket mm uaddr 4294967295 remaining 64
      if batch.2.length < 64 then batch
      else
        let more := wakeLoop bucket mm uaddr fuel (remaining - batch.2.length) batch.1
        (more.1, batch.2 ++ more.2)

/-- `wake_host`: a record that waits on this futex alone is placed in the guest
where `place` finds a slot. -/
def wakeHost (zone : Tables) (bucket mm uaddr bitset count : Nat)
    (place : Tables -> Nat -> Option Nat) : Tables × List Nat :=
  walk (wakeVisit bucket mm uaddr bitset (fun zone record seq =>
    (if (zone.record record).entryCount = 1 then
        match place zone record with
        | some slot => .queued slot seq
        | none => .transferring seq false false
      else .transferring seq false false, zone.wokenHandback record)) ) rounds
    (zone.bucket bucket).head count zone

/-! ## Requeues -/

def requeueVisit (source target mm origin destination : Nat) (zone : Tables) (id : Nat) :
    Option Tables :=
  match zone.eligible mm origin 4294967295 id with
  | none => none
  | some _ =>
    let unlinked := zone.unlink source id
    some ((unlinked.setEntry id { unlinked.entry id with uaddr := destination }).linkTail target id)

def requeue (zone : Tables) (source target mm origin destination count : Nat) :
    Tables × List Nat :=
  walk (requeueVisit source target mm origin destination) rounds (zone.bucket source).head count zone

end Tables

end Zone
end Carrick
