import Carrick.FutexTickets.Places

namespace Carrick
namespace FutexTickets

open Foundation

/-!
# Wakes and requeues, ticket by ticket

Both loops take the first ticket of a key out of its queue, again and again.  What
one round keeps is proved once and carried along the loops by induction on their
fuel; which tickets a wake consumes is read off the index.
-/

section Rounds

variable {hash : FutexKey -> Nat} {table : Table} {shard id : Nat} {entry : FutexQueueEntry}

section Placed

variable (placed : Placed hash table) (found : (table.queues shard).entries id = some entry)

include placed found

theorem Placed.slot_of_entry :
    (∃ slot, table.upgrade id = some slot ∧ table.slots id = some slot ∧ slot.state = .queued ∧
      slot.life = .live ∧ slot.queue = shard ∧ slot.bucket = entry.addr) ∨
    ∃ slot, table.upgrade id = none ∧ table.slots id = some slot ∧ slot.state = .queued ∧
      slot.life ≠ .live := by
  rcases placed.owned shard id entry found with ⟨slot, known, queued, _, atShard, addr⟩
  by_cases live : slot.life = .live
  · refine .inl ⟨slot, ?_, known, queued, live, atShard, addr⟩
    unfold Table.upgrade
    rw [known]
    exact if_pos live
  · refine .inr ⟨slot, ?_, known, queued, live⟩
    unfold Table.upgrade
    rw [known]
    exact if_neg live

/-- A round of a wake, for a ticket that someone refers to and for one that nobody
does. -/
theorem Placed.consumeFirst_cases :
    (∃ slot, table.slots id = some slot ∧ slot.state = .queued ∧ slot.life = .live ∧
      table.consumeFirst shard id entry =
        ((table.setQueue shard ((table.queues shard).removeEntry id entry)).setSlot id slot.wake,
          some entry.callback)) ∨
    table.upgrade id = none ∧ table.consumeFirst shard id entry =
      (table.setQueue shard ((table.queues shard).removeEntry id entry), none) := by
  unfold Table.consumeFirst
  rcases placed.slot_of_entry found with
    ⟨slot, upgraded, known, queued, live, _, _⟩ | ⟨slot, upgraded, _, _, _⟩
  · rw [upgraded]
    exact .inl ⟨slot, known, queued, live, rfl⟩
  · rw [upgraded]
    exact .inr ⟨rfl, rfl⟩

theorem Placed.discard (dead : table.upgrade id = none) :
    Placed hash (table.setQueue shard ((table.queues shard).removeEntry id entry)) := by
  refine (placed.remove found).placed ?_
  intro slot known _ live
  change table.slots id = some slot at known
  unfold Table.upgrade at dead
  rw [known] at dead
  change (if slot.life = .live then some slot else none) = none at dead
  rw [if_pos live] at dead
  cases dead

theorem Placed.consumeFirst :
    Placed hash (table.consumeFirst shard id entry).1 := by
  rcases placed.consumeFirst_cases found with ⟨slot, known, _, _, same⟩ | ⟨dead, same⟩
  · rw [same]
    have home : slot.wake.queue = shardIndex hash slot.wake.bucket := placed.home id slot known
    refine ((placed.remove found).setSlot home).placed ?_
    intro other same wrong
    rw [setSlot_self] at same
    cases same
    cases wrong
  · rw [same]
    exact placed.discard found dead

end Placed

theorem Placed.moveFirst_cases {source target : FutexKey} (placed : Placed hash table)
    (found : (table.queues (shardIndex hash source)).entries id = some entry) :
    (∃ slot, table.slots id = some slot ∧ slot.state = .queued ∧ slot.life = .live ∧
      table.moveFirst hash source target id entry =
        (((table.setQueue (shardIndex hash source)
            ((table.queues (shardIndex hash source)).removeEntry id entry)).setQueue
              (shardIndex hash target)
            (((table.setQueue (shardIndex hash source)
              ((table.queues (shardIndex hash source)).removeEntry id entry)).queues
                (shardIndex hash target)).insert id { entry with addr := target })).setSlot id
          (slot.relocate target (shardIndex hash target)), true)) ∨
    table.upgrade id = none ∧ table.moveFirst hash source target id entry =
      (table.setQueue (shardIndex hash source)
        ((table.queues (shardIndex hash source)).removeEntry id entry), false) := by
  unfold Table.moveFirst
  rcases placed.slot_of_entry found with
    ⟨slot, upgraded, known, queued, live, atShard, _⟩ | ⟨slot, upgraded, _, _, _⟩
  · rw [upgraded]
    refine .inl ⟨slot, known, queued, live, ?_⟩
    have queue : (if shardIndex hash source = shardIndex hash target then slot.queue
        else shardIndex hash target) = shardIndex hash target := by
      split_ifs with same
      · rw [atShard, same]
      · rfl
    simp only [queue]
  · rw [upgraded]
    exact .inr ⟨rfl, rfl⟩

theorem Placed.moveFirst {source target : FutexKey} (placed : Placed hash table)
    (found : (table.queues (shardIndex hash source)).entries id = some entry) :
    Placed hash (table.moveFirst hash source target id entry).1 := by
  rcases placed.moveFirst_cases found with ⟨slot, _, queued, live, same⟩ | ⟨dead, same⟩
  · rw [same]
    refine (placed.remove found).insert ?_ ?_ ?_ ?_ rfl
    · rfl
    · exact queued
    · intro wrong
      rw [show slot.life = .freed from wrong] at live
      cases live
    · rfl
  · rw [same]
    exact placed.discard found dead

end Rounds

/-! ## The loop of a wake -/

section Wake

variable {hash : FutexKey -> Nat} {shard : Nat} {addr : FutexKey}

/-- What a wake leaves: the tickets it consumed were queued and are woken, and
nothing else about a slot or a thread changed. -/
structure Consumed (table later : Table) (ids : List Nat) : Prop where
  thread : later.thread = table.thread
  nextTicket : later.nextTicket = table.nextTicket
  distinct : ids.Nodup
  queued : ∀ id ∈ ids, ∃ slot, table.slots id = some slot ∧ slot.state = .queued ∧
    slot.life = .live
  slots : ∀ id, later.slots id =
    if id ∈ ids then (table.slots id).map FutexQueueSlot.wake else table.slots id

theorem Consumed.none (table : Table) : Consumed table table [] := by
  refine ⟨rfl, rfl, List.nodup_nil, ?_, ?_⟩
  · intro id listed
    cases listed
  · intro id
    rw [if_neg (by simp)]

theorem consume_spec (fuel limit : Nat) {table : Table} (placed : Placed hash table) :
    Placed hash (Table.consume shard addr fuel limit table).1 ∧
      Consumed table (Table.consume shard addr fuel limit table).1
        (Table.consume shard addr fuel limit table).2 := by
  induction fuel generalizing limit table with
  | zero => exact ⟨placed, Consumed.none table⟩
  | succ fuel ih =>
    cases limit with
    | zero => exact ⟨placed, Consumed.none table⟩
    | succ limit =>
      unfold Table.consume
      cases listed : (table.queues shard).byAddr addr with
      | nil => exact ⟨placed, Consumed.none table⟩
      | cons id rest =>
        cases found : (table.queues shard).entries id with
        | none =>
          simp only [found]
          exact ⟨placed, Consumed.none table⟩
        | some entry =>
          have round := placed.consumeFirst found
          rcases placed.consumeFirst_cases found with
            ⟨slot, known, queued, live, same⟩ | ⟨dead, same⟩
          · rw [same] at round
            simp only [found, same]
            rcases ih limit round with ⟨kept, spec⟩
            refine ⟨kept, spec.thread, spec.nextTicket, ?_, ?_, ?_⟩
            · refine List.nodup_cons.mpr ⟨?_, spec.distinct⟩
              intro again
              rcases spec.queued id again with ⟨woken, foundWoken, wrong, _⟩
              rw [setSlot_self] at foundWoken
              cases foundWoken
              cases wrong
            · intro ticket member
              rcases List.mem_cons.mp member with rfl | later
              · exact ⟨slot, known, queued, live⟩
              rcases spec.queued ticket later with ⟨other, foundOther, waits, lives⟩
              by_cases self : ticket = id
              · subst self
                exact ⟨slot, known, queued, live⟩
              · rw [setSlot_other _ _ self] at foundOther
                exact ⟨other, foundOther, waits, lives⟩
            intro ticket
            rw [spec.slots]
            by_cases self : ticket = id
            · subst self
              rw [setSlot_self, if_pos List.mem_cons_self, known]
              split_ifs
              · rfl
              · rfl
            rw [setSlot_other _ _ self]
            have member : ticket ∈ id :: (Table.consume shard addr fuel limit
                ((table.setQueue shard
                  ((table.queues shard).removeEntry id entry)).setSlot id slot.wake)).2 <->
                ticket ∈ (Table.consume shard addr fuel limit
                  ((table.setQueue shard
                    ((table.queues shard).removeEntry id entry)).setSlot id
                      slot.wake)).2 := by
              rw [List.mem_cons]
              exact ⟨fun either => either.resolve_left self, .inr⟩
            simp only [member]
            rfl
          · rw [same] at round
            simp only [found, same]
            rcases ih (limit + 1) round with ⟨kept, spec⟩
            exact ⟨kept, spec.thread, spec.nextTicket, spec.distinct, spec.queued, spec.slots⟩

/-- The tickets of a key that a wake can consume, oldest first. -/
def Table.waiting (hash : FutexKey -> Nat) (table : Table) (key : FutexKey) : List Nat :=
  ((table.queues (shardIndex hash key)).byAddr key).filter
    (fun id => (table.upgrade id).isSome)

/-- The first ticket of a sorted list is the one that its removal takes. -/
theorem removeTicket_head {id : Nat} {rest : List Nat}
    (sorted : (id :: rest).Pairwise (fun first second => first < second)) :
    removeTicket id (id :: rest) = rest := by
  unfold removeTicket
  rw [List.filter_cons_of_neg (by simp)]
  refine List.filter_eq_self.mpr ?_
  intro other listed
  have above := (List.pairwise_cons.mp sorted).1 other listed
  simp only [ne_eq, decide_not, Bool.not_eq_eq_eq_not, Bool.not_true, decide_eq_false_iff_not]
  omega

theorem consume_exact (fuel limit : Nat) {table : Table} (placed : Placed hash table)
    (enough : ((table.queues shard).byAddr addr).length <= fuel) :
    (Table.consume shard addr fuel limit table).2 =
      (((table.queues shard).byAddr addr).filter
        (fun id => (table.upgrade id).isSome)).take limit := by
  induction fuel generalizing limit table with
  | zero =>
    have empty : (table.queues shard).byAddr addr = [] := List.length_eq_zero_iff.mp (by omega)
    rw [empty]
    simp [Table.consume]
  | succ fuel ih =>
    cases limit with
    | zero => simp [Table.consume]
    | succ limit =>
      unfold Table.consume
      cases listed : (table.queues shard).byAddr addr with
      | nil => simp
      | cons id rest =>
        have first : id ∈ (table.queues shard).byAddr addr := by rw [listed]; simp
        rcases ((placed.indexed shard).listed addr id).mp first with ⟨entry, found, atAddr⟩
        have sorted := (placed.indexed shard).sorted addr
        rw [listed] at sorted
        rw [listed, List.length_cons] at enough
        have index : ((table.queues shard).removeEntry id entry).byAddr addr = rest := by
          show Function.update (table.queues shard).byAddr entry.addr _ addr = rest
          rw [atAddr, Function.update_self, listed]
          exact removeTicket_head sorted
        have round := placed.consumeFirst found
        have later : ∀ other ∈ rest, other ≠ id := by
          intro other member same
          have above := (List.pairwise_cons.mp sorted).1 other member
          omega
        rcases placed.consumeFirst_cases found with
          ⟨slot, known, queued, live, same⟩ | ⟨dead, same⟩
        · rw [same] at round
          simp only [found, same]
          have alive : table.upgrade id = some slot := by
            unfold Table.upgrade
            rw [known]
            exact if_pos live
          rw [List.filter_cons_of_pos (by rw [alive]; rfl), List.take_succ_cons]
          have queue : (((table.setQueue shard
              ((table.queues shard).removeEntry id entry)).setSlot id slot.wake).queues
                shard).byAddr addr = rest := by
            show ((table.setQueue shard _).queues shard).byAddr addr = rest
            rw [setQueue_self]
            exact index
          rw [ih limit round (by rw [queue]; omega), queue]
          congr 2
          refine List.filter_congr ?_
          intro other member
          have unchanged : ((table.setQueue shard
              ((table.queues shard).removeEntry id entry)).setSlot id slot.wake).upgrade other =
                table.upgrade other := by
            unfold Table.upgrade
            rw [setSlot_other _ _ (later other member)]
            rfl
          rw [unchanged]
        · rw [same] at round
          simp only [found, same]
          rw [List.filter_cons_of_neg (by rw [dead]; simp)]
          have queue : ((table.setQueue shard
              ((table.queues shard).removeEntry id entry)).queues shard).byAddr addr =
                rest := by
            rw [setQueue_self]
            exact index
          rw [ih (limit + 1) round (by rw [queue]; omega), queue]
          rfl

theorem publishGeneration_exact {table : Table} (placed : Placed hash table) (key : FutexKey)
    (limit : Nat) :
    (table.publishGeneration hash key limit).2 = (table.waiting hash key).take limit :=
  consume_exact _ limit placed le_rfl

end Wake

/-! ## The loop of a requeue -/

section Requeue

variable {hash : FutexKey -> Nat} {source target : FutexKey}

/-- What a requeue leaves: the tickets it moved are on the target, and nothing
else of a slot has changed. -/
structure Moved (hash : FutexKey -> Nat) (target : FutexKey) (table later : Table)
    (ids : List Nat) : Prop where
  thread : later.thread = table.thread
  nextTicket : later.nextTicket = table.nextTicket
  queued : ∀ id ∈ ids, ∃ slot, table.slots id = some slot ∧ slot.state = .queued ∧
    slot.life = .live
  slots : ∀ id, later.slots id = if id ∈ ids then
    (table.slots id).map (fun slot => slot.relocate target (shardIndex hash target))
    else table.slots id

theorem Moved.none (table : Table) : Moved hash target table table [] := by
  refine ⟨rfl, rfl, ?_, ?_⟩
  · intro id listed
    cases listed
  · intro id
    rw [if_neg (by simp)]

theorem move_spec (fuel limit : Nat) {table : Table} (placed : Placed hash table) :
    Placed hash (Table.move hash source target fuel limit table).1 ∧
      Moved hash target table (Table.move hash source target fuel limit table).1
        (Table.move hash source target fuel limit table).2 := by
  induction fuel generalizing limit table with
  | zero => exact ⟨placed, Moved.none table⟩
  | succ fuel ih =>
    cases limit with
    | zero => exact ⟨placed, Moved.none table⟩
    | succ limit =>
      unfold Table.move
      cases listed : (table.queues (shardIndex hash source)).byAddr source with
      | nil => exact ⟨placed, Moved.none table⟩
      | cons id rest =>
        cases found : (table.queues (shardIndex hash source)).entries id with
        | none =>
          simp only [found]
          exact ⟨placed, Moved.none table⟩
        | some entry =>
          have round := @Placed.moveFirst hash table id entry source target placed found
          rcases @Placed.moveFirst_cases hash table id entry source target placed found with
            ⟨slot, known, queued, live, same⟩ | ⟨dead, same⟩
          · rw [same] at round
            simp only [found, same]
            rcases ih limit round with ⟨kept, spec⟩
            refine ⟨kept, spec.thread, spec.nextTicket, ?_, ?_⟩
            · intro ticket member
              by_cases self : ticket = id
              · subst self
                exact ⟨slot, known, queued, live⟩
              · rcases spec.queued ticket ((List.mem_cons.mp member).resolve_left self) with
                  ⟨other, foundOther, waits, lives⟩
                rw [setSlot_other _ _ self] at foundOther
                exact ⟨other, foundOther, waits, lives⟩
            intro ticket
            rw [spec.slots]
            by_cases self : ticket = id
            · subst self
              rw [setSlot_self, if_pos List.mem_cons_self, known]
              split_ifs
              · rfl
              · rfl
            · rw [setSlot_other _ _ self]
              simp only [List.mem_cons, self, false_or]
              rfl
          · rw [same] at round
            simp only [found, same]
            rcases ih (limit + 1) round with ⟨kept, spec⟩
            exact ⟨kept, spec.thread, spec.nextTicket, spec.queued, spec.slots⟩

end Requeue

end FutexTickets
end Carrick
