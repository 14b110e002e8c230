import Mathlib.Data.List.Nodup
import Mathlib.Logic.Function.Basic
import Carrick.Foundation.Run
import Carrick.Foundation.Word

namespace Carrick
namespace FutexTickets

open Foundation

/-!
# Futex waiters by ticket

A waiter joins the queue of its key with a ticket, and leaves it when a wake
consumes the ticket, when it departs, or when the last reference to the ticket is
dropped.  The queues are sharded by key, each under its own lock; a ticket's slot
names the queue the ticket is on, under a lock of its own.

Each section under a queue's lock is one step, and so is each read of a slot's
queue: a departure reads which queue its ticket is on, and locks that queue later.
-/

structure SharedFutexFileIdentity where
  device : Nat
  inode : Nat
  deriving DecidableEq

inductive SharedFutexKey where
  | direct (addr : Nat)
  | file (identity : SharedFutexFileIdentity) (offset : Nat)
  deriving DecidableEq

inductive FutexKey where
  | privateWord (addr : Nat)
  | sharedWord (key : SharedFutexKey)
  | auxiliary (key : Nat)
  deriving DecidableEq

/-- The shard of a key.  `hash` is the standard library's hash of a key that is
not private. -/
def shardIndex (hash : FutexKey -> Nat) : FutexKey -> Nat
  | .privateWord addr => addr * 0x9E3779B97F4A7C15 % 2 ^ 64 / 2 ^ 58 % 64
  | key => hash key % 64

/-! ## Queues -/

structure FutexQueueEntry where
  addr : FutexKey
  callback : Option Nat
  deriving DecidableEq

/-- `by_addr` keeps the tickets of a key in increasing order; a key without
tickets has no set in the code and an empty one here. -/
structure FutexQueue where
  entries : Nat -> Option FutexQueueEntry
  byAddr : FutexKey -> List Nat

def insertTicket (id : Nat) (ids : List Nat) : List Nat :=
  ids.filter (fun other => other < id) ++ id :: ids.filter (fun other => id < other)

def removeTicket (id : Nat) (ids : List Nat) : List Nat :=
  ids.filter (fun other => other ≠ id)

namespace FutexQueue

def empty : FutexQueue := { entries := fun _ => none, byAddr := fun _ => [] }

def insert (queue : FutexQueue) (id : Nat) (entry : FutexQueueEntry) : FutexQueue :=
  { entries := Function.update queue.entries id (some entry),
    byAddr := Function.update queue.byAddr entry.addr
      (insertTicket id (queue.byAddr entry.addr)) }

def removeEntry (queue : FutexQueue) (id : Nat) (entry : FutexQueueEntry) : FutexQueue :=
  { entries := Function.update queue.entries id none,
    byAddr := Function.update queue.byAddr entry.addr
      (removeTicket id (queue.byAddr entry.addr)) }

def remove (queue : FutexQueue) (id : Nat) : FutexQueue × Option FutexQueueEntry :=
  match queue.entries id with
  | none => (queue, none)
  | some entry => (queue.removeEntry id entry, some entry)

end FutexQueue

/-! ## Slots -/

inductive SlotState where
  | queued
  | woken
  | released
  deriving DecidableEq

/-- Whether references to a slot are left, its drop is running, or it is gone.
A weak reference can be upgraded only while it is live. -/
inductive Life where
  | live
  | dropping
  | freed
  deriving DecidableEq

/-- A slot with its references: the tokens, and the subscriptions.  A call in
flight holds a reference that is counted in neither. -/
structure FutexQueueSlot where
  state : SlotState
  queue : Nat
  bucket : FutexKey
  tokens : Nat
  subscriptions : Nat
  life : Life

def FutexQueueSlot.wake (slot : FutexQueueSlot) : FutexQueueSlot :=
  { slot with state := .woken }

/-- The slot of a ticket that a requeue moves. -/
def FutexQueueSlot.relocate (slot : FutexQueueSlot) (bucket : FutexKey) (queue : Nat) :
    FutexQueueSlot :=
  { slot with bucket := bucket, queue := queue }

/-! ## Threads -/

/-- Where a thread is in a call: it is about to read its slot's queue, or to lock
the queue that it read. -/
inductive Phase where
  | idle
  | preparing (id : Nat) (key : FutexKey)
  | subscribing (id callback : Nat)
  | subscribeAt (id callback shard : Nat)
  | dequeuing (id : Nat)
  | dequeueAt (id shard : Nat)
  | unsubscribing (id : Nat)
  | unsubscribeAt (id shard : Nat)
  | dropping (id : Nat)
  | dropAt (id shard : Nat)

/-- The call holds a reference to the slot. -/
def Phase.Holds : Phase -> Nat -> Prop
  | .subscribing held _, id => held = id
  | .subscribeAt held _ _, id => held = id
  | .dequeuing held, id => held = id
  | .dequeueAt held _, id => held = id
  | .unsubscribing held, id => held = id
  | .unsubscribeAt held _, id => held = id
  | _, _ => False

structure Table where
  queues : Nat -> FutexQueue
  slots : Nat -> Option FutexQueueSlot
  nextTicket : Nat
  thread : Nat -> Phase

namespace Table

def setQueue (table : Table) (shard : Nat) (queue : FutexQueue) : Table :=
  { table with queues := Function.update table.queues shard queue }

def setSlot (table : Table) (id : Nat) (slot : FutexQueueSlot) : Table :=
  { table with slots := Function.update table.slots id (some slot) }

def setThread (table : Table) (thread : Nat) (phase : Phase) : Table :=
  { table with thread := Function.update table.thread thread phase }

/-- The slot of a ticket whose weak reference can still be upgraded. -/
def upgrade (table : Table) (id : Nat) : Option FutexQueueSlot :=
  match table.slots id with
  | none => none
  | some slot => if slot.life = .live then some slot else none

/-! ## Wakes -/

/-- One round of the loop in `publish_generation`: the first ticket of the key
leaves the queue, and is woken if someone still refers to it. -/
def consumeFirst (table : Table) (shard id : Nat) (entry : FutexQueueEntry) :
    Table × Option (Option Nat) :=
  match table.upgrade id with
  | none => (table.setQueue shard ((table.queues shard).removeEntry id entry), none)
  | some slot =>
    ((table.setQueue shard ((table.queues shard).removeEntry id entry)).setSlot id slot.wake,
      some entry.callback)

/-- The loop of `publish_generation`, with the tickets it wakes. -/
def consume (shard : Nat) (addr : FutexKey) : Nat -> Nat -> Table -> Table × List Nat
  | 0, _, table => (table, [])
  | _ + 1, 0, table => (table, [])
  | fuel + 1, limit + 1, table =>
    match (table.queues shard).byAddr addr with
    | [] => (table, [])
    | id :: _ =>
      match (table.queues shard).entries id with
      | none => (table, [])
      | some entry =>
        match table.consumeFirst shard id entry with
        | (later, none) => consume shard addr fuel (limit + 1) later
        | (later, some _) =>
          ((consume shard addr fuel limit later).1,
            id :: (consume shard addr fuel limit later).2)

/-- Every round removes a ticket of the key, so the loop ends within as many
rounds as the key has tickets. -/
def publishGeneration (hash : FutexKey -> Nat) (table : Table) (addr : FutexKey) (limit : Nat) :
    Table × List Nat :=
  consume (shardIndex hash addr) addr
    ((table.queues (shardIndex hash addr)).byAddr addr).length limit table

/-! ## Requeues -/

/-- One round of the loop that moves tickets: the first ticket of the source
leaves it, and joins the target if someone still refers to it. -/
def moveFirst (hash : FutexKey -> Nat) (table : Table) (source target : FutexKey) (id : Nat)
    (entry : FutexQueueEntry) : Table × Bool :=
  let removed := table.setQueue (shardIndex hash source)
    ((table.queues (shardIndex hash source)).removeEntry id entry)
  match table.upgrade id with
  | none => (removed, false)
  | some slot =>
    ((removed.setQueue (shardIndex hash target)
        ((removed.queues (shardIndex hash target)).insert id { entry with addr := target })).setSlot
      id (slot.relocate target (if shardIndex hash source = shardIndex hash target
        then slot.queue else shardIndex hash target)), true)

/-- The loop of `requeue` over the queues, with the tickets it moves. -/
def move (hash : FutexKey -> Nat) (source target : FutexKey) :
    Nat -> Nat -> Table -> Table × List Nat
  | 0, _, table => (table, [])
  | _ + 1, 0, table => (table, [])
  | fuel + 1, limit + 1, table =>
    match (table.queues (shardIndex hash source)).byAddr source with
    | [] => (table, [])
    | id :: _ =>
      match (table.queues (shardIndex hash source)).entries id with
      | none => (table, [])
      | some entry =>
        match table.moveFirst hash source target id entry with
        | (later, false) => move hash source target fuel (limit + 1) later
        | (later, true) =>
          ((move hash source target fuel limit later).1,
            id :: (move hash source target fuel limit later).2)

/-- A round removes a dead ticket or uses up one of the limit. -/
def requeueTickets (hash : FutexKey -> Nat) (table : Table) (source target : FutexKey)
    (limit : Nat) : Table × List Nat :=
  move hash source target
    (((table.queues (shardIndex hash source)).byAddr source).length + limit) limit table

/-! ## Departures -/

/-- The locked section of `dequeue`. -/
def dequeueSection (table : Table) (id shard : Nat) (slot : FutexQueueSlot) : Table × Bool :=
  match slot.state with
  | .woken => (table.setSlot id { slot with tokens := slot.tokens + 1 }, false)
  | .queued =>
    ((table.setQueue shard ((table.queues shard).remove id).1).setSlot id
      { slot with state := .released, tokens := slot.tokens + 1 }, true)
  | .released => (table.setSlot id { slot with tokens := slot.tokens + 1 }, false)

/-- The locked section of a subscription's drop; its reference is dropped later. -/
def unsubscribeSection (table : Table) (id shard : Nat) (slot : FutexQueueSlot) : Table × Bool :=
  match (table.queues shard).remove id with
  | (_, none) => (table.setSlot id { slot with tokens := slot.tokens + 1 }, false)
  | (queue, some _) =>
    ((table.setQueue shard queue).setSlot id
      { slot with state := .released, tokens := slot.tokens + 1 }, true)

/-- The locked section of `subscribe_generation`. -/
def subscribeSection (table : Table) (id callback shard : Nat) (slot : FutexQueueSlot) :
    Table × Bool :=
  match slot.state, (table.queues shard).entries id with
  | .queued, some entry =>
    ((table.setQueue shard { table.queues shard with
        entries := Function.update (table.queues shard).entries id
          (some { entry with callback := some callback }) }).setSlot id
      { slot with subscriptions := slot.subscriptions + 1 }, true)
  | _, _ => (table.setSlot id { slot with tokens := slot.tokens + 1 }, false)

end Table

/-! ## Steps -/

inductive Event where
  | reserved (id : Nat) (key : FutexKey)
  | prepared (id : Nat) (key : FutexKey)
  | cloned (id : Nat)
  | called (id : Nat)
  | found (id shard : Nat)
  | subscribed (id : Nat)
  | ready (id : Nat)
  | stayed (id : Nat)
  | released (id : Nat)
  | tokenDropped (id : Nat)
  | woke (key : FutexKey) (limit : Nat) (consumed : List Nat)
  | moved (source target : FutexKey) (limit : Nat) (tickets : List Nat)
  deriving DecidableEq

/-- Someone else refers to the slot. -/
def Shared (table : Table) (id : Nat) (slot : FutexQueueSlot) : Prop :=
  1 < slot.tokens ∨ 0 < slot.subscriptions ∨ ∃ thread, (table.thread thread).Holds id

inductive Step (hash : FutexKey -> Nat) : Table -> Event -> Table -> Prop
  | reserve {table : Table} {thread : Nat} (key : FutexKey) (idle : table.thread thread = .idle) :
      Step hash table (.reserved table.nextTicket key)
        ({ table with nextTicket := (table.nextTicket + 1) % wordLimit }.setThread thread
          (.preparing table.nextTicket key))
  | prepare {table : Table} {thread id : Nat} {key : FutexKey}
      (preparing : table.thread thread = .preparing id key) :
      Step hash table (.prepared id key)
        (((table.setQueue (shardIndex hash key)
            ((table.queues (shardIndex hash key)).insert id { addr := key, callback := none })).setSlot
          id { state := .queued, queue := shardIndex hash key, bucket := key, tokens := 1,
               subscriptions := 0, life := .live }).setThread thread .idle)
  | clone {table : Table} {id : Nat} {slot : FutexQueueSlot} (found : table.slots id = some slot)
      (holds : 0 < slot.tokens) :
      Step hash table (.cloned id) (table.setSlot id { slot with tokens := slot.tokens + 1 })
  | subscribe {table : Table} {thread id : Nat} {slot : FutexQueueSlot} (callback : Nat)
      (idle : table.thread thread = .idle) (found : table.slots id = some slot)
      (holds : 0 < slot.tokens) (unwoken : slot.state ≠ .woken) :
      Step hash table (.called id)
        ((table.setSlot id { slot with tokens := slot.tokens - 1 }).setThread thread
          (.subscribing id callback))
  | subscribeWoken {table : Table} {id : Nat} {slot : FutexQueueSlot}
      (found : table.slots id = some slot) (holds : 0 < slot.tokens)
      (woken : slot.state = .woken) : Step hash table (.ready id) table
  | dequeue {table : Table} {thread id : Nat} {slot : FutexQueueSlot}
      (idle : table.thread thread = .idle) (found : table.slots id = some slot)
      (holds : 0 < slot.tokens) :
      Step hash table (.called id)
        ((table.setSlot id { slot with tokens := slot.tokens - 1 }).setThread thread (.dequeuing id))
  | unsubscribe {table : Table} {thread id : Nat} {slot : FutexQueueSlot}
      (idle : table.thread thread = .idle) (found : table.slots id = some slot)
      (holds : 0 < slot.subscriptions) :
      Step hash table (.called id)
        ((table.setSlot id { slot with subscriptions := slot.subscriptions - 1 }).setThread thread
          (.unsubscribing id))
  | findForSubscribe {table : Table} {thread id callback : Nat} {slot : FutexQueueSlot}
      (running : table.thread thread = .subscribing id callback)
      (found : table.slots id = some slot) :
      Step hash table (.found id slot.queue)
        (table.setThread thread (.subscribeAt id callback slot.queue))
  | findForDequeue {table : Table} {thread id : Nat} {slot : FutexQueueSlot}
      (running : table.thread thread = .dequeuing id) (found : table.slots id = some slot) :
      Step hash table (.found id slot.queue) (table.setThread thread (.dequeueAt id slot.queue))
  | findForUnsubscribe {table : Table} {thread id : Nat} {slot : FutexQueueSlot}
      (running : table.thread thread = .unsubscribing id) (found : table.slots id = some slot) :
      Step hash table (.found id slot.queue) (table.setThread thread (.unsubscribeAt id slot.queue))
  | findForDrop {table : Table} {thread id : Nat} {slot : FutexQueueSlot}
      (running : table.thread thread = .dropping id) (found : table.slots id = some slot) :
      Step hash table (.found id slot.queue) (table.setThread thread (.dropAt id slot.queue))
  | subscribeAt {table later : Table} {thread id callback shard : Nat} {slot : FutexQueueSlot}
      {subscribed : Bool} (running : table.thread thread = .subscribeAt id callback shard)
      (found : table.slots id = some slot)
      (sectionRan : table.subscribeSection id callback shard slot = (later, subscribed)) :
      Step hash table (if subscribed then .subscribed id else .ready id)
        (later.setThread thread .idle)
  | dequeueAt {table later : Table} {thread id shard : Nat} {slot : FutexQueueSlot} {left : Bool}
      (running : table.thread thread = .dequeueAt id shard) (found : table.slots id = some slot)
      (sectionRan : table.dequeueSection id shard slot = (later, left)) :
      Step hash table (if left then .released id else .stayed id) (later.setThread thread .idle)
  | unsubscribeAt {table later : Table} {thread id shard : Nat} {slot : FutexQueueSlot} {left : Bool}
      (running : table.thread thread = .unsubscribeAt id shard) (found : table.slots id = some slot)
      (sectionRan : table.unsubscribeSection id shard slot = (later, left)) :
      Step hash table (if left then .released id else .stayed id) (later.setThread thread .idle)
  | dropToken {table : Table} {id : Nat} {slot : FutexQueueSlot}
      (found : table.slots id = some slot) (holds : 0 < slot.tokens)
      (others : Shared table id slot) :
      Step hash table (.tokenDropped id) (table.setSlot id { slot with tokens := slot.tokens - 1 })
  | dropLast {table : Table} {thread id : Nat} {slot : FutexQueueSlot}
      (idle : table.thread thread = .idle) (found : table.slots id = some slot)
      (holds : 0 < slot.tokens) (last : ¬ Shared table id slot) (queued : slot.state = .queued) :
      Step hash table (.tokenDropped id)
        ((table.setSlot id { slot with tokens := 0, life := .dropping }).setThread thread
          (.dropping id))
  | dropEnded {table : Table} {id : Nat} {slot : FutexQueueSlot}
      (found : table.slots id = some slot) (holds : 0 < slot.tokens)
      (last : ¬ Shared table id slot) (ended : slot.state ≠ .queued) :
      Step hash table (.tokenDropped id) (table.setSlot id { slot with tokens := 0, life := .freed })
  | dropAt {table : Table} {thread id shard : Nat} {slot : FutexQueueSlot}
      (running : table.thread thread = .dropAt id shard) (found : table.slots id = some slot) :
      Step hash table (.released id)
        (((table.setQueue shard ((table.queues shard).remove id).1).setSlot id
          { slot with life := .freed }).setThread thread .idle)
  | wake {table : Table} (key : FutexKey) (limit : Nat) :
      Step hash table (.woke key limit (table.publishGeneration hash key limit).2)
        (table.publishGeneration hash key limit).1
  | wakeAbsent {table : Table} (key : FutexKey) (limit : Nat)
      (notPrivate : ∀ addr, key ≠ .privateWord addr)
      (absent : ∀ id slot, table.slots id = some slot -> slot.life = .live ->
        slot.bucket ≠ key) : Step hash table (.woke key limit []) table
  | requeue {table : Table} (source target : FutexKey) (limit : Nat) :
      Step hash table (.moved source target limit (table.requeueTickets hash source target limit).2)
        (table.requeueTickets hash source target limit).1

def Starts (table : Table) : Prop :=
  (∀ shard, table.queues shard = FutexQueue.empty) ∧ (∀ id, table.slots id = none) ∧
    table.nextTicket = 0 ∧ ∀ thread, table.thread thread = .idle

end FutexTickets
end Carrick
