import Carrick.FutexTickets.Table

namespace Carrick
namespace FutexTickets

open Foundation
open Function (update_of_ne update_self)

/-!
# Where a ticket is

A queued ticket is on one queue, the one its slot names, under the slot's key,
and every entry of a queue belongs to such a ticket.  Operations take a ticket
out of its queue and then either put it elsewhere or end it, so the invariant is
also stated with one ticket left out.
-/

/-! ## One queue -/

/-- The index by key lists exactly the entries, in increasing order. -/
structure Indexed (queue : FutexQueue) : Prop where
  sorted : ∀ key, (queue.byAddr key).Pairwise (fun first second => first < second)
  listed : ∀ key id, id ∈ queue.byAddr key <->
    ∃ entry, queue.entries id = some entry ∧ entry.addr = key

theorem mem_insertTicket {id other : Nat} {ids : List Nat} :
    other ∈ insertTicket id ids <-> other = id ∨ other ∈ ids := by
  unfold insertTicket
  rw [List.mem_append, List.mem_cons, List.mem_filter, List.mem_filter]
  simp only [decide_eq_true_eq]
  constructor
  · rintro (⟨listed, _⟩ | same | ⟨listed, _⟩)
    · exact .inr listed
    · exact .inl same
    · exact .inr listed
  rintro (same | listed)
  · exact .inr (.inl same)
  · rcases Nat.lt_trichotomy other id with below | same | above
    · exact .inl ⟨listed, below⟩
    · exact .inr (.inl same)
    · exact .inr (.inr ⟨listed, above⟩)

theorem mem_removeTicket {id other : Nat} {ids : List Nat} :
    other ∈ removeTicket id ids <-> other ∈ ids ∧ other ≠ id := by
  unfold removeTicket
  rw [List.mem_filter]
  simp

theorem sorted_insertTicket {id : Nat} {ids : List Nat}
    (sorted : ids.Pairwise (fun first second => first < second)) :
    (insertTicket id ids).Pairwise (fun first second => first < second) := by
  refine List.pairwise_append.mpr ⟨sorted.filter _, List.pairwise_cons.mpr ⟨?_, sorted.filter _⟩, ?_⟩
  · intro other listed
    simpa using (List.mem_filter.mp listed).2
  intro first firstListed second secondListed
  have below : first < id := by simpa using (List.mem_filter.mp firstListed).2
  rcases List.mem_cons.mp secondListed with same | later
  · rw [same]
    exact below
  · have above : id < second := by simpa using (List.mem_filter.mp later).2
    exact Nat.lt_trans below above

namespace Indexed

variable {queue : FutexQueue} {id : Nat} {entry : FutexQueueEntry}

theorem insert (indexed : Indexed queue) (fresh : queue.entries id = none) :
    Indexed (queue.insert id entry) := by
  constructor
  · intro key
    show (Function.update queue.byAddr entry.addr _ key).Pairwise _
    by_cases same : key = entry.addr
    · subst same
      rw [update_self]
      exact sorted_insertTicket (indexed.sorted _)
    · rw [update_of_ne same]
      exact indexed.sorted key
  intro key other
  show other ∈ Function.update queue.byAddr entry.addr _ key <->
    ∃ found, Function.update queue.entries id (some entry) other = some found ∧ found.addr = key
  by_cases self : other = id
  · subst self
    rw [update_self]
    by_cases same : key = entry.addr
    · subst same
      rw [update_self, mem_insertTicket]
      exact ⟨fun _ => ⟨entry, rfl, rfl⟩, fun _ => .inl rfl⟩
    rw [update_of_ne same, indexed.listed, fresh]
    constructor
    · rintro ⟨found, wrong, _⟩
      cases wrong
    · rintro ⟨found, known, atKey⟩
      cases known
      exact absurd atKey.symm same
  · rw [update_of_ne self, <- indexed.listed]
    by_cases same : key = entry.addr
    · subst same
      rw [update_self, mem_insertTicket]
      exact ⟨fun known => known.resolve_left self, .inr⟩
    · rw [update_of_ne same]

theorem removeEntry (indexed : Indexed queue) (found : queue.entries id = some entry) :
    Indexed (queue.removeEntry id entry) := by
  constructor
  · intro key
    show (Function.update queue.byAddr entry.addr _ key).Pairwise _
    by_cases same : key = entry.addr
    · subst same
      rw [update_self]
      exact (indexed.sorted _).filter _
    · rw [update_of_ne same]
      exact indexed.sorted key
  intro key other
  show other ∈ Function.update queue.byAddr entry.addr _ key <->
    ∃ left, Function.update queue.entries id none other = some left ∧ left.addr = key
  by_cases self : other = id
  · subst self
    rw [update_self]
    constructor
    · intro listed
      by_cases same : key = entry.addr
      · subst same
        rw [update_self, mem_removeTicket] at listed
        exact absurd rfl listed.2
      · rw [update_of_ne same, indexed.listed, found] at listed
        rcases listed with ⟨left, known, atKey⟩
        cases known
        exact absurd atKey.symm same
    · rintro ⟨left, wrong, _⟩
      cases wrong
  · rw [update_of_ne self, <- indexed.listed]
    by_cases same : key = entry.addr
    · subst same
      rw [update_self, mem_removeTicket]
      exact ⟨fun known => known.1, fun listed => ⟨listed, self⟩⟩
    · rw [update_of_ne same]

theorem callback (indexed : Indexed queue) (found : queue.entries id = some entry)
    (callback : Option Nat) :
    Indexed { queue with
      entries := Function.update queue.entries id (some { entry with callback := callback }) } := by
  refine ⟨indexed.sorted, ?_⟩
  intro key other
  show other ∈ queue.byAddr key <-> ∃ left, Function.update queue.entries id
    (some { entry with callback := callback }) other = some left ∧ left.addr = key
  rw [indexed.listed]
  by_cases self : other = id
  · subst self
    rw [found, update_self]
    constructor
    · rintro ⟨left, known, atKey⟩
      cases known
      exact ⟨_, rfl, atKey⟩
    · rintro ⟨left, known, atKey⟩
      cases known
      exact ⟨entry, rfl, atKey⟩
  · rw [update_of_ne self]

end Indexed

theorem indexed_empty : Indexed FutexQueue.empty := by
  constructor
  · intro key
    exact List.Pairwise.nil
  intro key id
  constructor
  · intro listed
    cases listed
  · rintro ⟨entry, wrong, _⟩
    cases wrong

/-! ## The table -/

section Fields

variable (table : Table) {shard other id ticket : Nat}

@[simp] theorem setQueue_self (queue : FutexQueue) :
    (table.setQueue shard queue).queues shard = queue := by
  show Function.update table.queues shard queue shard = queue
  rw [update_self]

theorem setQueue_other (queue : FutexQueue) (different : other ≠ shard) :
    (table.setQueue shard queue).queues other = table.queues other := by
  show Function.update table.queues shard queue other = _
  rw [update_of_ne different]

@[simp] theorem setSlot_self (slot : FutexQueueSlot) :
    (table.setSlot id slot).slots id = some slot := by
  show Function.update table.slots id (some slot) id = some slot
  rw [update_self]

theorem setSlot_other (slot : FutexQueueSlot) (different : ticket ≠ id) :
    (table.setSlot id slot).slots ticket = table.slots ticket := by
  show Function.update table.slots id (some slot) ticket = _
  rw [update_of_ne different]

end Fields

/-- Where every ticket is: an entry of a queue belongs to a queued slot that
names this queue, and a live queued slot has its entry there. -/
structure Placed (hash : FutexKey -> Nat) (table : Table) : Prop where
  indexed : ∀ shard, Indexed (table.queues shard)
  owned : ∀ shard id entry, (table.queues shard).entries id = some entry ->
    ∃ slot, table.slots id = some slot ∧ slot.state = .queued ∧ slot.life ≠ .freed ∧
      slot.queue = shard ∧ slot.bucket = entry.addr
  home : ∀ id slot, table.slots id = some slot -> slot.queue = shardIndex hash slot.bucket
  present : ∀ id slot, table.slots id = some slot -> slot.state = .queued ->
    slot.life = .live -> ∃ entry, (table.queues slot.queue).entries id = some entry

/-- Where every ticket is but one, which is on no queue. -/
structure PlacedBut (hash : FutexKey -> Nat) (id : Nat) (table : Table) : Prop where
  indexed : ∀ shard, Indexed (table.queues shard)
  owned : ∀ shard other entry, (table.queues shard).entries other = some entry ->
    ∃ slot, table.slots other = some slot ∧ slot.state = .queued ∧ slot.life ≠ .freed ∧
      slot.queue = shard ∧ slot.bucket = entry.addr
  home : ∀ other slot, table.slots other = some slot ->
    slot.queue = shardIndex hash slot.bucket
  present : ∀ other slot, other ≠ id -> table.slots other = some slot ->
    slot.state = .queued -> slot.life = .live ->
    ∃ entry, (table.queues slot.queue).entries other = some entry
  gone : ∀ shard, (table.queues shard).entries id = none

section Placing

variable {hash : FutexKey -> Nat} {table later : Table} {id shard : Nat} {slot : FutexQueueSlot}
  {entry : FutexQueueEntry}

theorem Placed.but (placed : Placed hash table)
    (gone : ∀ shard, (table.queues shard).entries id = none) : PlacedBut hash id table :=
  ⟨placed.indexed, placed.owned, placed.home, fun other slot _ => placed.present other slot, gone⟩

theorem PlacedBut.placed (placed : PlacedBut hash id table)
    (ended : ∀ slot, table.slots id = some slot -> slot.state = .queued -> slot.life ≠ .live) :
    Placed hash table := by
  refine ⟨placed.indexed, placed.owned, placed.home, ?_⟩
  intro other slot found queued live
  by_cases same : other = id
  · subst same
    exact absurd live (ended slot found queued)
  · exact placed.present other slot same found queued live

/-- The entry of a ticket is on the queue that its slot names, and on no other. -/
theorem Placed.only (placed : Placed hash table) {other : Nat} {found : FutexQueueEntry}
    (here : (table.queues shard).entries id = some entry)
    (there : (table.queues other).entries id = some found) : other = shard := by
  rcases placed.owned shard id entry here with ⟨slot, known, _, _, atShard, _⟩
  rcases placed.owned other id found there with ⟨again, knownAgain, _, _, atOther, _⟩
  rw [known] at knownAgain
  cases knownAgain
  exact atOther.symm.trans atShard

theorem Placed.remove (placed : Placed hash table)
    (found : (table.queues shard).entries id = some entry) :
    PlacedBut hash id (table.setQueue shard ((table.queues shard).removeEntry id entry)) := by
  have entries : ∀ other ticket left,
      ((table.setQueue shard ((table.queues shard).removeEntry id entry)).queues other).entries
        ticket = some left -> ticket ≠ id ∧ (table.queues other).entries ticket = some left := by
    intro other ticket left known
    by_cases same : other = shard
    · subst same
      rw [setQueue_self] at known
      change Function.update (table.queues other).entries id none ticket = some left at known
      by_cases self : ticket = id
      · rw [self, update_self] at known
        cases known
      · rw [update_of_ne self] at known
        exact ⟨self, known⟩
    · rw [setQueue_other table _ same] at known
      refine ⟨?_, known⟩
      rintro rfl
      exact same (placed.only found known)
  refine ⟨?_, ?_, placed.home, ?_, ?_⟩
  · intro other
    by_cases same : other = shard
    · subst same
      rw [setQueue_self]
      exact (placed.indexed other).removeEntry found
    · rw [setQueue_other table _ same]
      exact placed.indexed other
  · intro other ticket left known
    exact placed.owned other ticket left (entries other ticket left known).2
  · intro ticket slot different known queued live
    rcases placed.present ticket slot known queued live with ⟨left, listed⟩
    refine ⟨left, ?_⟩
    by_cases same : slot.queue = shard
    · rw [same] at listed ⊢
      rw [setQueue_self]
      show Function.update (table.queues shard).entries id none ticket = some left
      rw [update_of_ne different]
      exact listed
    · rw [setQueue_other table _ same]
      exact listed
  · intro other
    cases known : ((table.setQueue shard
        ((table.queues shard).removeEntry id entry)).queues other).entries id with
    | none => rfl
    | some left => exact absurd rfl (entries other id left known).1

theorem PlacedBut.setSlot (placed : PlacedBut hash id table)
    (home : slot.queue = shardIndex hash slot.bucket) :
    PlacedBut hash id (table.setSlot id slot) := by
  refine ⟨placed.indexed, ?_, ?_, ?_, placed.gone⟩
  · intro other ticket entry known
    have different : ticket ≠ id := by
      rintro rfl
      have gone := placed.gone other
      change (table.queues other).entries ticket = some entry at known
      rw [gone] at known
      cases known
    rw [setSlot_other table slot different]
    exact placed.owned other ticket entry known
  · intro ticket known found
    by_cases same : ticket = id
    · subst same
      rw [setSlot_self] at found
      cases found
      exact home
    · rw [setSlot_other table slot same] at found
      exact placed.home ticket known found
  · intro ticket known different found
    rw [setSlot_other table slot different] at found
    exact placed.present ticket known different found

theorem PlacedBut.insert (placed : PlacedBut hash id table)
    (home : slot.queue = shardIndex hash slot.bucket) (queued : slot.state = .queued)
    (unfreed : slot.life ≠ .freed) (addr : entry.addr = slot.bucket) (there : slot.queue = shard) :
    Placed hash ((table.setQueue shard ((table.queues shard).insert id entry)).setSlot id slot) := by
  subst there
  have entries : ∀ other ticket,
      ((table.setQueue slot.queue ((table.queues slot.queue).insert id entry)).queues other).entries
        ticket = if other = slot.queue ∧ ticket = id then some entry
          else (table.queues other).entries ticket := by
    intro other ticket
    by_cases same : other = slot.queue
    · subst same
      rw [setQueue_self]
      show Function.update (table.queues slot.queue).entries id (some entry) ticket = _
      by_cases self : ticket = id
      · rw [self, update_self, if_pos ⟨rfl, rfl⟩]
      · rw [update_of_ne self, if_neg (fun both => self both.2)]
    · rw [setQueue_other table _ same, if_neg (fun both => same both.1)]
  refine ⟨?_, ?_, ?_, ?_⟩
  · intro other
    show Indexed ((table.setQueue slot.queue _).queues other)
    by_cases same : other = slot.queue
    · subst same
      rw [setQueue_self]
      exact (placed.indexed slot.queue).insert (placed.gone slot.queue)
    · rw [setQueue_other table _ same]
      exact placed.indexed other
  · intro other ticket found known
    change ((table.setQueue slot.queue _).queues other).entries ticket = some found at known
    rw [entries] at known
    by_cases here : other = slot.queue ∧ ticket = id
    · rw [if_pos here] at known
      cases known
      rw [here.2, setSlot_self]
      exact ⟨slot, rfl, queued, unfreed, here.1.symm, addr.symm⟩
    rw [if_neg here] at known
    have different : ticket ≠ id := by
      rintro rfl
      rw [placed.gone other] at known
      cases known
    rw [setSlot_other _ slot different]
    exact placed.owned other ticket found known
  · intro ticket known found
    by_cases same : ticket = id
    · subst same
      rw [setSlot_self] at found
      cases found
      exact home
    · rw [setSlot_other _ slot same] at found
      exact placed.home ticket known found
  intro ticket known found waiting live
  show ∃ entry, ((table.setQueue slot.queue _).queues known.queue).entries ticket = some entry
  rw [entries]
  by_cases same : ticket = id
  · subst same
    rw [setSlot_self] at found
    cases found
    rw [if_pos ⟨rfl, rfl⟩]
    exact ⟨entry, rfl⟩
  · rw [setSlot_other _ slot same] at found
    rw [if_neg (fun both => same both.2)]
    exact placed.present ticket known same found waiting live

/-- What the invariant reads of a slot. -/
def FutexQueueSlot.place (slot : FutexQueueSlot) : SlotState × Nat × FutexKey × Life :=
  (slot.state, slot.queue, slot.bucket, slot.life)

/-- Tickets stay where they are while references and threads change. -/
theorem Placed.congr (placed : Placed hash table) (queues : later.queues = table.queues)
    (slots : ∀ id, (later.slots id).map FutexQueueSlot.place =
      (table.slots id).map FutexQueueSlot.place) : Placed hash later := by
  have back : ∀ id slot, later.slots id = some slot ->
      ∃ earlier, table.slots id = some earlier ∧ earlier.place = slot.place := by
    intro id slot found
    have same := slots id
    rw [found, Option.map_some, eq_comm, Option.map_eq_some_iff] at same
    exact same
  have forth : ∀ id slot, table.slots id = some slot ->
      ∃ after, later.slots id = some after ∧ after.place = slot.place := by
    intro id slot found
    have same := slots id
    rw [found, Option.map_some, Option.map_eq_some_iff] at same
    exact same
  refine ⟨?_, ?_, ?_, ?_⟩
  · rw [queues]
    exact placed.indexed
  · intro shard id entry known
    rw [queues] at known
    rcases placed.owned shard id entry known with ⟨slot, found, queued, unfreed, atShard, addr⟩
    rcases forth id slot found with ⟨after, foundAfter, same⟩
    unfold FutexQueueSlot.place at same
    simp only [Prod.mk.injEq] at same
    exact ⟨after, foundAfter, same.1.trans queued, fun wrong => unfreed (same.2.2.2 ▸ wrong),
      same.2.1.trans atShard, same.2.2.1.trans addr⟩
  · intro id slot found
    rcases back id slot found with ⟨earlier, foundBefore, same⟩
    unfold FutexQueueSlot.place at same
    simp only [Prod.mk.injEq] at same
    rw [<- same.2.1, <- same.2.2.1]
    exact placed.home id earlier foundBefore
  intro id slot found queued live
  rcases back id slot found with ⟨earlier, foundBefore, same⟩
  unfold FutexQueueSlot.place at same
  simp only [Prod.mk.injEq] at same
  rw [queues, <- same.2.1]
  exact placed.present id earlier foundBefore (same.1.trans queued) (same.2.2.2.trans live)

/-- A slot may lose its last reference, or be freed once its ticket has ended. -/
theorem Placed.setLife (placed : Placed hash table) {after : FutexQueueSlot}
    (found : table.slots id = some slot) (state : after.state = slot.state)
    (queue : after.queue = slot.queue) (bucket : after.bucket = slot.bucket)
    (freed : after.life = .freed -> slot.state ≠ .queued)
    (live : after.life = .live -> slot.life = .live) : Placed hash (table.setSlot id after) := by
  refine ⟨placed.indexed, ?_, ?_, ?_⟩
  · intro shard ticket entry known
    rcases placed.owned shard ticket entry known with ⟨owner, foundOwner, queued, unfreed, there, addr⟩
    by_cases same : ticket = id
    · subst same
      rw [found] at foundOwner
      cases foundOwner
      rw [setSlot_self]
      exact ⟨after, rfl, state.trans queued, fun wrong => freed wrong queued, queue.trans there,
        bucket.trans addr⟩
    · rw [setSlot_other table after same]
      exact ⟨owner, foundOwner, queued, unfreed, there, addr⟩
  · intro ticket known foundKnown
    by_cases same : ticket = id
    · subst same
      rw [setSlot_self] at foundKnown
      cases foundKnown
      rw [queue, bucket]
      exact placed.home ticket slot found
    · rw [setSlot_other table after same] at foundKnown
      exact placed.home ticket known foundKnown
  intro ticket known foundKnown queued alive
  by_cases same : ticket = id
  · subst same
    rw [setSlot_self] at foundKnown
    cases foundKnown
    show ∃ entry, (table.queues after.queue).entries ticket = some entry
    rw [queue]
    exact placed.present ticket slot found (state.symm.trans queued) (live alive)
  · rw [setSlot_other table after same] at foundKnown
    exact placed.present ticket known foundKnown queued alive

/-- A ticket leaves the queue that its slot names, and its slot ends it. -/
theorem Placed.depart (placed : Placed hash table) {after : FutexQueueSlot}
    (found : table.slots id = some slot) (there : slot.queue = shard)
    (queue : after.queue = slot.queue) (bucket : after.bucket = slot.bucket)
    (ended : after.state = .queued -> after.life ≠ .live) :
    Placed hash ((table.setQueue shard ((table.queues shard).remove id).1).setSlot id after) := by
  have home : after.queue = shardIndex hash after.bucket := by
    rw [queue, bucket]
    exact placed.home id slot found
  have done : ∀ known, (some after : Option FutexQueueSlot) = some known ->
      known.state = .queued -> known.life ≠ .live := by
    intro known same
    cases same
    exact ended
  unfold FutexQueue.remove
  cases listed : (table.queues shard).entries id with
  | some entry =>
    refine ((placed.remove listed).setSlot home).placed ?_
    rw [setSlot_self]
    exact done
  | none =>
    have gone : ∀ other, (table.queues other).entries id = none := by
      intro other
      cases known : (table.queues other).entries id with
      | none => rfl
      | some entry =>
        rcases placed.owned other id entry known with ⟨owner, foundOwner, _, _, atOther, _⟩
        rw [found] at foundOwner
        cases foundOwner
        rw [<- atOther, there, listed] at known
        cases known
    have same : table.setQueue shard (table.queues shard) = table := by
      unfold Table.setQueue
      rw [Function.update_eq_self]
    show Placed hash ((table.setQueue shard (table.queues shard)).setSlot id after)
    rw [same]
    refine ((placed.but gone).setSlot home).placed ?_
    rw [setSlot_self]
    exact done

theorem Placed.callback (placed : Placed hash table)
    (found : (table.queues shard).entries id = some entry) (callback : Option Nat) :
    Placed hash (table.setQueue shard { table.queues shard with
      entries := Function.update (table.queues shard).entries id
        (some { entry with callback := callback }) }) := by
  have entries : ∀ other ticket,
      (∃ left, ((table.setQueue shard { table.queues shard with
        entries := Function.update (table.queues shard).entries id
          (some { entry with callback := callback }) }).queues other).entries ticket = some left) <->
      ∃ left, (table.queues other).entries ticket = some left := by
    intro other ticket
    by_cases same : other = shard
    · subst same
      rw [setQueue_self]
      by_cases self : ticket = id
      · subst self
        simp only [update_self, found]
        exact ⟨fun _ => ⟨_, rfl⟩, fun _ => ⟨_, rfl⟩⟩
      · simp only [update_of_ne self]
    · rw [setQueue_other table _ same]
  refine ⟨?_, ?_, placed.home, ?_⟩
  · intro other
    by_cases same : other = shard
    · subst same
      rw [setQueue_self]
      exact (placed.indexed other).callback found callback
    · rw [setQueue_other table _ same]
      exact placed.indexed other
  · intro other ticket left known
    by_cases same : other = shard
    · subst same
      rw [setQueue_self] at known
      change Function.update (table.queues other).entries id _ ticket = some left at known
      by_cases self : ticket = id
      · subst self
        rw [update_self] at known
        cases known
        exact placed.owned other ticket entry found
      · rw [update_of_ne self] at known
        exact placed.owned other ticket left known
    · rw [setQueue_other table _ same] at known
      exact placed.owned other ticket left known
  · intro ticket known foundKnown queued live
    exact (entries known.queue ticket).mpr (placed.present ticket known foundKnown queued live)

end Placing

end FutexTickets
end Carrick
