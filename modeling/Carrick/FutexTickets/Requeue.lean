import Carrick.FutexTickets.Loops

namespace Carrick
namespace FutexTickets

open Foundation
open List (cons_append length_append length_cons length_eq_zero_iff length_take mem_map nodup_nil pairwise_cons)

/-!
# How long a requeue runs

A requeue wakes some waiters of the source and moves some of the rest.  A waiter is a
ticket on a queue, or a thread that is parked on the key.  The loop over the tickets
takes the first ticket of the source again and again and stops at its limit or at an
empty source, so what bounds it is that a moved ticket is no longer on the source.

The parking lot is a library outside the repository.  It is a parameter here, with what
its documentation promises about the two calls that a requeue makes.
-/

inductive Waiter where
  | ticket (id : Nat)
  | thread (tid : Nat)
  deriving DecidableEq

/-! ## Rounds -/

namespace Table

/-- The tickets that the rounds of `consume` take, dead ones included. -/
def consumeRounds (shard : Nat) (addr : FutexKey) : Nat -> Nat -> Table -> List Nat
  | 0, _, _ => []
  | _ + 1, 0, _ => []
  | fuel + 1, limit + 1, table =>
    match (table.queues shard).byAddr addr with
    | [] => []
    | id :: _ =>
      match (table.queues shard).entries id with
      | none => []
      | some entry =>
        match table.consumeFirst shard id entry with
        | (later, none) => id :: consumeRounds shard addr fuel (limit + 1) later
        | (later, some _) => id :: consumeRounds shard addr fuel limit later

/-- The tickets that the rounds of `move` take, dead ones included. -/
def moveRounds (hash : FutexKey -> Nat) (source target : FutexKey) :
    Nat -> Nat -> Table -> List Nat
  | 0, _, _ => []
  | _ + 1, 0, _ => []
  | fuel + 1, limit + 1, table =>
    match (table.queues (shardIndex hash source)).byAddr source with
    | [] => []
    | id :: _ =>
      match (table.queues (shardIndex hash source)).entries id with
      | none => []
      | some entry =>
        match table.moveFirst hash source target id entry with
        | (later, false) => id :: moveRounds hash source target fuel (limit + 1) later
        | (later, true) => id :: moveRounds hash source target fuel limit later

end Table

/-! ## Parked threads -/

inductive FilterOp where
  | unpark
  | skip
  | stop

inductive RequeueOp where
  | requeueOne
  | requeueAll

/-- What the filter of a requeue keeps from one parked thread to the next: how many it
may still unpark and mark, and the threads that it has unparked and marked. -/
structure Marks where
  toWake : Nat
  toMark : Nat
  unparked : List Nat
  marked : List Nat

def Marks.filter (marks : Marks) (tid : Nat) : FilterOp × Marks :=
  if 0 < marks.toWake then
    (.unpark, { marks with toWake := marks.toWake - 1, unparked := marks.unparked ++ [tid] })
  else if 0 < marks.toMark then
    (.skip, { marks with toMark := marks.toMark - 1, marked := marks.marked ++ [tid] })
  else (.stop, marks)

/-- A parking lot: the threads that are parked on a key, first parked first, and the two
calls, which answer with how many threads they unparked or moved. -/
structure ParkingLot (Lot : Type) where
  parked : Lot -> FutexKey -> List Nat
  unparkFilter : Lot -> FutexKey -> (Marks -> Nat -> FilterOp × Marks) -> Marks ->
    Lot × Marks × Nat
  unparkRequeue : Lot -> FutexKey -> FutexKey -> RequeueOp -> Lot × Nat

/-- A filter asked about each thread in turn until it stops, with the threads that it
unparks and those that stay. -/
def filtered (filter : Marks -> Nat -> FilterOp × Marks) :
    Marks -> List Nat -> Marks × List Nat × List Nat
  | marks, [] => (marks, [], [])
  | marks, tid :: rest =>
    match filter marks tid with
    | (.unpark, later) =>
      let after := filtered filter later rest
      (after.1, tid :: after.2.1, after.2.2)
    | (.skip, later) =>
      let after := filtered filter later rest
      (after.1, after.2.1, tid :: after.2.2)
    | (.stop, later) => (later, [], tid :: rest)

/-- The threads parked on every key after `tids` went from the front of one key to the
end of another. -/
def relinked (lots : FutexKey -> List Nat) (source target : FutexKey) (tids rest : List Nat) :
    FutexKey -> List Nat :=
  Function.update (Function.update lots source rest) target
    (Function.update lots source rest target ++ tids)

/-- The documented behaviour of the two calls.  `unpark_filter` asks its filter about the
threads of the queue from the front until it stops and unparks those that it names;
`unpark_requeue` moves the first thread, or all of them, to the other queue. -/
structure ParkingLot.Documented {Lot : Type} (lots : ParkingLot Lot) : Prop where
  marks : ∀ lot key filter marks, (lots.unparkFilter lot key filter marks).2.1 =
    (filtered filter marks (lots.parked lot key)).1
  unparked : ∀ lot key filter marks, (lots.unparkFilter lot key filter marks).2.2 =
    (filtered filter marks (lots.parked lot key)).2.1.length
  stays : ∀ lot key filter marks, lots.parked (lots.unparkFilter lot key filter marks).1 key =
    (filtered filter marks (lots.parked lot key)).2.2
  requeuesOne : ∀ lot source target tid rest, lots.parked lot source = tid :: rest ->
    (lots.unparkRequeue lot source target .requeueOne).2 = 1 ∧
      lots.parked (lots.unparkRequeue lot source target .requeueOne).1 =
        relinked (lots.parked lot) source target [tid] rest
  requeuesAll : ∀ lot source target,
    (lots.unparkRequeue lot source target .requeueAll).2 = (lots.parked lot source).length

/-- A futex table and the parking lot that its threads park in.  The index of a queue
follows its entries, and a thread is parked once. -/
structure FutexTable {Lot : Type} (lots : ParkingLot Lot) where
  tickets : Table
  lot : Lot
  redirect : Nat -> Option FutexKey
  present : FutexKey -> Bool
  indexed : ∀ shard, Indexed (tickets.queues shard)
  distinct : ∀ key, (lots.parked lot key).Nodup

section Lots

variable {Lot : Type} (lots : ParkingLot Lot)

/-- The loop over `RequeueOp::RequeueOne`, with the threads that it relinks.  A round
that moves nothing ends it. -/
def relinkOne (source target : FutexKey) : Nat -> Nat -> Lot -> Lot × List Nat
  | 0, _, lot => (lot, [])
  | _ + 1, 0, lot => (lot, [])
  | fuel + 1, left + 1, lot =>
    let answer := lots.unparkRequeue lot source target .requeueOne
    if answer.2 = 0 then (answer.1, [])
    else
      let later := relinkOne source target fuel (left + 1 - answer.2) answer.1
      (later.1, (lots.parked lot source).take answer.2 ++ later.2)

/-- `RequeueOp::RequeueAll`. -/
def relinkAll (source target : FutexKey) (lot : Lot) : Lot × List Nat :=
  let answer := lots.unparkRequeue lot source target .requeueAll
  (answer.1, (lots.parked lot source).take answer.2)

/-- The second pass over the parked threads. -/
def relink (lot : Lot) (source target : FutexKey) (marked left : Nat) : Lot × List Nat :=
  if 0 < marked then
    if 0 < left then relinkAll lots source target lot
    else relinkOne lots source target marked marked lot
  else (lot, [])

end Lots

/-! ## The whole call -/

/-- What a requeue did: the waiters that its rounds took off the queues of the source,
those of them that it moved, the parked threads that its first pass came by, and what
it returns. -/
structure Requeued (Lot : Type) where
  tickets : Table
  lot : Lot
  redirect : Nat -> Option FutexKey
  taken : List Waiter
  moved : List Waiter
  visited : List Nat
  woken : Nat
  requeued : Nat

section Call

variable {Lot : Type} {lots : ParkingLot Lot}

/-- The tickets that a requeue wakes. -/
def FutexTable.listeners (hash : FutexKey -> Nat) (table : FutexTable lots) (source : FutexKey)
    (wake : Nat) : Table × List Nat :=
  if 0 < wake then table.tickets.publishGeneration hash source wake else (table.tickets, [])

def FutexTable.listenerRounds (hash : FutexKey -> Nat) (table : FutexTable lots) (source : FutexKey)
    (wake : Nat) : List Nat :=
  if 0 < wake then
    Table.consumeRounds (shardIndex hash source) source
      ((table.tickets.queues (shardIndex hash source)).byAddr source).length wake table.tickets
  else []

/-- The tickets that a requeue moves once it has marked the parked threads. -/
def Table.requeuedListeners (hash : FutexKey -> Nat) (tickets : Table) (source target : FutexKey)
    (left : Nat) : Table × List Nat :=
  if 0 < left then tickets.requeueTickets hash source target left else (tickets, [])

def Table.requeuedRounds (hash : FutexKey -> Nat) (tickets : Table) (source target : FutexKey)
    (left : Nat) : List Nat :=
  if 0 < left then
    Table.moveRounds hash source target
      (((tickets.queues (shardIndex hash source)).byAddr source).length + left) left tickets
  else []

/-- The counters of the buckets are left out. -/
def FutexTable.requeue (hash : FutexKey -> Nat) (table : FutexTable lots)
    (source target : FutexKey) (wake requeue : Nat) : Requeued Lot :=
  if table.present source = false then
    { tickets := table.tickets, lot := table.lot, redirect := table.redirect, taken := [],
      moved := [], visited := [], woken := 0, requeued := 0 }
  else
    let listeners := table.listeners hash source wake
    let pass := lots.unparkFilter table.lot source Marks.filter
      ⟨wake - listeners.2.length, requeue, [], []⟩
    let marks := pass.2.1
    let moves := listeners.1.requeuedListeners hash source target marks.toMark
    let relinks := relink lots pass.1 source target marks.marked.length marks.toMark
    { tickets := moves.1
      lot := relinks.1
      redirect := fun tid => if tid ∈ marks.marked then some target else table.redirect tid
      taken := (table.listenerRounds hash source wake).map .ticket ++
        marks.unparked.map .thread ++
        (listeners.1.requeuedRounds hash source target marks.toMark).map .ticket ++
        relinks.2.map .thread
      moved := moves.2.map .ticket ++ relinks.2.map .thread
      visited := marks.unparked ++ marks.marked
      woken := min (pass.2.2 + listeners.2.length) wake
      requeued := min (marks.marked.length + moves.2.length) requeue }

/-- The waiters that are queued on a key. -/
def FutexTable.queued (hash : FutexKey -> Nat) (table : FutexTable lots) (key : FutexKey) : Nat :=
  ((table.tickets.queues (shardIndex hash key)).byAddr key).length +
    (lots.parked table.lot key).length

/-- A requeue is bounded by the waiters of its source, on the queue of tickets
and in the parking lot, and keeps to its two limits. -/
structure Bounded (hash : FutexKey -> Nat) (table : FutexTable lots) (source target : FutexKey)
    (wake requeue : Nat) : Prop where
  steps : (table.requeue hash source target wake requeue).taken.length <= table.queued hash source
  visits : (table.requeue hash source target wake requeue).visited.length <=
    (lots.parked table.lot source).length
  once : (table.requeue hash source target wake requeue).moved.Nodup
  woken : (table.requeue hash source target wake requeue).woken <= wake
  requeued : (table.requeue hash source target wake requeue).requeued <= requeue
  total : (table.requeue hash source target wake requeue).woken +
    (table.requeue hash source target wake requeue).requeued <= table.queued hash source

end Call

/-! ## What a round leaves -/

/-- The tickets of a key on its shard, in order, and which of them are live. -/
structure View (table : Table) (shard : Nat) (addr : FutexKey) (ids : List Nat)
    (live : Nat -> Bool) : Prop where
  listed : (table.queues shard).byAddr addr = ids
  sorted : ids.Pairwise (fun first second => first < second)
  entries : ∀ id ∈ ids,
    ∃ entry, (table.queues shard).entries id = some entry ∧ entry.addr = addr
  upgrades : ∀ id, (table.upgrade id).isSome = live id

namespace View

variable {table : Table} {shard id : Nat} {addr : FutexKey} {ids rest : List Nat}
  {live : Nat -> Bool} {entry : FutexQueueEntry}

theorem of_indexed (indexed : Indexed (table.queues shard)) :
    View table shard addr ((table.queues shard).byAddr addr)
      (fun id => (table.upgrade id).isSome) where
  listed := rfl
  sorted := indexed.sorted addr
  entries := fun id member => (indexed.listed addr id).mp member
  upgrades := fun _ => rfl

theorem first (view : View table shard addr (id :: rest) live) :
    ∃ entry, (table.queues shard).entries id = some entry ∧ entry.addr = addr :=
  view.entries id List.mem_cons_self

theorem dead (view : View table shard addr ids live) (upgraded : table.upgrade id = none) :
    live id = false := by
  rw [<- view.upgrades id, upgraded]
  rfl

theorem alive (view : View table shard addr ids live) {slot : FutexQueueSlot}
    (upgraded : table.upgrade id = some slot) : live id = true := by
  rw [<- view.upgrades id, upgraded]
  rfl

theorem above (view : View table shard addr (id :: rest) live) {other : Nat}
    (member : other ∈ rest) : other ≠ id := by
  have later := (pairwise_cons.mp view.sorted).1 other member
  omega

theorem removed (view : View table shard addr (id :: rest) live) (atAddr : entry.addr = addr) :
    View (table.setQueue shard ((table.queues shard).removeEntry id entry)) shard addr rest live where
  listed := by
    rw [setQueue_self]
    show Function.update (table.queues shard).byAddr entry.addr _ addr = rest
    rw [atAddr, Function.update_self, view.listed]
    exact removeTicket_head view.sorted
  sorted := (pairwise_cons.mp view.sorted).2
  entries := by
    intro other member
    rw [setQueue_self]
    show ∃ found, Function.update (table.queues shard).entries id none other = some found ∧ _
    rw [Function.update_of_ne (view.above member)]
    exact view.entries other (List.mem_cons_of_mem _ member)
  upgrades := view.upgrades

theorem setSlot {slot after : FutexQueueSlot} (view : View table shard addr ids live)
    (found : table.slots id = some slot) (life : after.life = slot.life) :
    View (table.setSlot id after) shard addr ids live where
  listed := view.listed
  sorted := view.sorted
  entries := view.entries
  upgrades := by
    intro other
    rw [<- view.upgrades other]
    unfold Table.upgrade
    by_cases same : other = id
    · rw [same, setSlot_self, found]
      dsimp only
      rw [life]
      split_ifs
      · rfl
      · rfl
    · rw [setSlot_other _ _ same]

end View

theorem upgrade_some {table : Table} {id : Nat} {slot : FutexQueueSlot}
    (upgraded : table.upgrade id = some slot) : table.slots id = some slot := by
  unfold Table.upgrade at upgraded
  cases found : table.slots id with
  | none =>
    rw [found] at upgraded
    cases upgraded
  | some other =>
    rw [found] at upgraded
    dsimp only at upgraded
    split_ifs at upgraded
    exact upgraded

/-! ## The loop of a wake -/

/-- A wake takes a first part of the tickets, and all of them where it wakes fewer than
it may. -/
theorem consume_view {shard : Nat} {addr : FutexKey} {live : Nat -> Bool} (fuel limit : Nat)
    {table : Table} {ids : List Nat} (view : View table shard addr ids live)
    (enough : ids.length <= fuel) :
    ∃ rest, ids = Table.consumeRounds shard addr fuel limit table ++ rest ∧
      View (Table.consume shard addr fuel limit table).1 shard addr rest live ∧
      (Table.consume shard addr fuel limit table).2 =
        (Table.consumeRounds shard addr fuel limit table).filter live ∧
      (Table.consume shard addr fuel limit table).2.length <= limit ∧
      ((Table.consume shard addr fuel limit table).2.length < limit -> rest = []) := by
  induction fuel generalizing limit table ids with
  | zero =>
    have none : ids = [] := length_eq_zero_iff.mp (Nat.le_zero.mp enough)
    subst none
    exact ⟨[], rfl, view, rfl, Nat.zero_le _, fun _ => rfl⟩
  | succ fuel ih =>
    cases limit with
    | zero => exact ⟨ids, rfl, view, rfl, Nat.le_refl 0, fun wrong => absurd wrong (Nat.lt_irrefl 0)⟩
    | succ limit =>
      unfold Table.consume Table.consumeRounds
      rw [view.listed]
      cases ids with
      | nil => exact ⟨[], rfl, view, rfl, Nat.zero_le _, fun _ => rfl⟩
      | cons id rest =>
        rcases view.first with ⟨entry, found, atAddr⟩
        have shorter : rest.length <= fuel := by
          rw [length_cons] at enough
          omega
        have removed := view.removed atAddr
        dsimp only
        rw [found]
        dsimp only
        unfold Table.consumeFirst
        cases upgraded : table.upgrade id with
        | none =>
          have dead := view.dead upgraded
          rcases ih (limit + 1) removed shorter with
            ⟨after, parts, later, consumed, bound, ended⟩
          refine ⟨after, ?_, later, ?_, bound, ended⟩
          · dsimp only
            rw [cons_append, <- parts]
          · dsimp only
            rw [List.filter_cons_of_neg (by rw [dead]; exact Bool.false_ne_true)]
            exact consumed
        | some slot =>
          have alive := view.alive upgraded
          have woken := @View.setSlot _ _ id _ _ _ slot slot.wake removed
            (upgrade_some upgraded) rfl
          rcases ih limit woken shorter with
            ⟨after, parts, later, consumed, bound, ended⟩
          refine ⟨after, ?_, later, ?_, ?_, ?_⟩
          · dsimp only
            rw [cons_append, <- parts]
          · dsimp only
            rw [List.filter_cons_of_pos alive]
            exact congrArg _ consumed
          · rw [length_cons]
            omega
          · intro fewer
            rw [length_cons] at fewer
            exact ended (by omega)

/-! ## The loop of a requeue -/

section Move

variable {hash : FutexKey -> Nat} {source target : FutexKey} {live : Nat -> Bool}

theorem View.inserted {table : Table} {id : Nat} {ids : List Nat} {entry : FutexQueueEntry}
    (view : View table (shardIndex hash source) source ids live) (apart : source ≠ target)
    (absent : id ∉ ids) :
    View (table.setQueue (shardIndex hash target)
      ((table.queues (shardIndex hash target)).insert id { entry with addr := target }))
      (shardIndex hash source) source ids live := by
  by_cases same : shardIndex hash source = shardIndex hash target
  · rw [<- same]
    constructor
    case listed =>
      rw [setQueue_self]
      show Function.update (table.queues (shardIndex hash source)).byAddr target _ source = ids
      rw [Function.update_of_ne apart]
      exact view.listed
    case sorted => exact view.sorted
    case entries =>
      intro other member
      rw [setQueue_self]
      show ∃ found, Function.update (table.queues (shardIndex hash source)).entries id _ other =
        some found ∧ _
      have differs : other ≠ id := fun here => absent (here ▸ member)
      rw [Function.update_of_ne differs]
      exact view.entries other member
    case upgrades => exact view.upgrades
  · constructor
    case listed =>
      rw [setQueue_other _ _ same]
      exact view.listed
    case sorted => exact view.sorted
    case entries =>
      rw [setQueue_other _ _ same]
      exact view.entries
    case upgrades => exact view.upgrades

theorem move_view (apart : source ≠ target) (fuel limit : Nat) {table : Table} {ids : List Nat}
    (view : View table (shardIndex hash source) source ids live) :
    ∃ rest, ids = Table.moveRounds hash source target fuel limit table ++ rest ∧
      (Table.move hash source target fuel limit table).2 =
        (Table.moveRounds hash source target fuel limit table).filter live := by
  induction fuel generalizing limit table ids with
  | zero => exact ⟨ids, rfl, rfl⟩
  | succ fuel ih =>
    cases limit with
    | zero => exact ⟨ids, rfl, rfl⟩
    | succ limit =>
      unfold Table.move Table.moveRounds
      rw [view.listed]
      cases ids with
      | nil => exact ⟨[], rfl, rfl⟩
      | cons id rest =>
        rcases view.first with ⟨entry, found, atAddr⟩
        have removed := view.removed atAddr
        dsimp only
        rw [found]
        dsimp only
        unfold Table.moveFirst
        cases upgraded : table.upgrade id with
        | none =>
          have dead := view.dead upgraded
          rcases ih (limit + 1) removed with ⟨after, parts, moved⟩
          refine ⟨after, ?_, ?_⟩
          · dsimp only
            rw [cons_append, <- parts]
          · dsimp only
            rw [List.filter_cons_of_neg (by rw [dead]; exact Bool.false_ne_true)]
            exact moved
        | some slot =>
          have alive := view.alive upgraded
          have absent : id ∉ rest := fun member => view.above member rfl
          have joined := @View.setSlot _ _ id _ _ _ slot (slot.relocate target
            (if shardIndex hash source = shardIndex hash target then slot.queue
              else shardIndex hash target))
            (@View.inserted hash source target live _ _ _ entry removed apart absent)
            (upgrade_some upgraded) rfl
          rcases ih limit joined with ⟨after, parts, moved⟩
          refine ⟨after, ?_, ?_⟩
          · dsimp only
            rw [cons_append, <- parts]
          · dsimp only
            rw [List.filter_cons_of_pos alive]
            exact congrArg _ moved

/-- A ticket that goes back to where it came from is the first again. -/
theorem View.reinserted {table : Table} {id : Nat} {rest : List Nat} {entry : FutexQueueEntry}
    (view : View table (shardIndex hash source) source (id :: rest) live)
    (atAddr : entry.addr = source) :
    View ((table.setQueue (shardIndex hash source)
        ((table.queues (shardIndex hash source)).removeEntry id entry)).setQueue
          (shardIndex hash source)
        (((table.setQueue (shardIndex hash source)
          ((table.queues (shardIndex hash source)).removeEntry id entry)).queues
            (shardIndex hash source)).insert id { entry with addr := source }))
      (shardIndex hash source) source (id :: rest) live := by
  have removed := view.removed atAddr
  constructor
  case listed =>
    rw [setQueue_self]
    show Function.update (((table.setQueue (shardIndex hash source) _).queues
      (shardIndex hash source)).byAddr) source _ source = id :: rest
    rw [Function.update_self, removed.listed]
    unfold insertTicket
    have below : rest.filter (fun other => other < id) = [] := by
      rw [List.filter_eq_nil_iff]
      intro other member
      have later := (pairwise_cons.mp view.sorted).1 other member
      rw [decide_eq_true_eq]
      omega
    have above : rest.filter (fun other => id < other) = rest := by
      rw [List.filter_eq_self]
      intro other member
      rw [decide_eq_true_eq]
      exact (pairwise_cons.mp view.sorted).1 other member
    rw [below, above]
    rfl
  case sorted => exact view.sorted
  case entries =>
    intro other member
    rw [setQueue_self]
    show ∃ found, Function.update (((table.setQueue (shardIndex hash source) _).queues
      (shardIndex hash source)).entries) id _ other = some found ∧ _
    by_cases same : other = id
    · rw [same, Function.update_self]
      exact ⟨_, rfl, rfl⟩
    · rw [Function.update_of_ne same]
      exact removed.entries other ((List.mem_cons.mp member).resolve_left same)
  case upgrades => exact view.upgrades

/-- A requeue to its own source moves the first live ticket until its limit. -/
theorem move_same (fuel limit : Nat) {table : Table} {ids : List Nat}
    (view : View table (shardIndex hash source) source ids live)
    (enough : ids.length + limit <= fuel) :
    (Table.move hash source source fuel limit table).2 =
        (match ids.filter live with
          | [] => []
          | id :: _ => List.replicate limit id) ∧
      ((limit <= 1 ∨ ids.filter live = []) ->
        (Table.moveRounds hash source source fuel limit table).length <= ids.length) := by
  induction fuel generalizing limit table ids with
  | zero =>
    have none : ids = [] := length_eq_zero_iff.mp (by omega)
    subst none
    exact ⟨rfl, fun _ => Nat.le_refl 0⟩
  | succ fuel ih =>
    cases limit with
    | zero =>
      refine ⟨?_, fun _ => Nat.zero_le _⟩
      cases ids.filter live with
      | nil => rfl
      | cons id rest => rfl
    | succ limit =>
      unfold Table.move Table.moveRounds
      rw [view.listed]
      cases ids with
      | nil => exact ⟨rfl, fun _ => Nat.le_refl 0⟩
      | cons id rest =>
        rcases view.first with ⟨entry, found, atAddr⟩
        have removed := view.removed atAddr
        rw [length_cons] at enough
        dsimp only
        rw [found]
        dsimp only
        unfold Table.moveFirst
        cases upgraded : table.upgrade id with
        | none =>
          have dead := view.dead upgraded
          rw [List.filter_cons_of_neg (by rw [dead]; exact Bool.false_ne_true)]
          rcases ih (limit + 1) removed (by omega) with ⟨moved, bound⟩
          refine ⟨moved, ?_⟩
          intro few
          dsimp only
          rw [length_cons, length_cons]
          exact Nat.succ_le_succ (bound few)
        | some slot =>
          have alive := view.alive upgraded
          have back := @View.setSlot _ _ id _ _ _ slot (slot.relocate source
            (if shardIndex hash source = shardIndex hash source then slot.queue
              else shardIndex hash source)) (view.reinserted atAddr)
            (upgrade_some upgraded) rfl
          rcases ih limit back (by rw [length_cons]; omega) with
            ⟨moved, bound⟩
          rw [List.filter_cons_of_pos alive] at moved ⊢
          constructor
          · dsimp only at moved ⊢
            rw [moved]
            rfl
          intro few
          rcases few with one | none
          · have last : limit = 0 := by omega
            subst last
            dsimp only
            rw [length_cons, length_cons]
            cases fuel with
            | zero => exact Nat.succ_le_succ (Nat.zero_le _)
            | succ fuel => exact Nat.succ_le_succ (Nat.zero_le _)
          · cases none

end Move

/-! ## The parked threads -/

/-- The filter unparks the first threads that it may and marks the next. -/
theorem filtered_marks (tids : List Nat) (marks : Marks) :
    (filtered Marks.filter marks tids).1.unparked = marks.unparked ++ tids.take marks.toWake ∧
    (filtered Marks.filter marks tids).1.marked =
      marks.marked ++ (tids.drop marks.toWake).take marks.toMark ∧
    (filtered Marks.filter marks tids).1.toMark =
      marks.toMark - (tids.drop marks.toWake).length ∧
    (filtered Marks.filter marks tids).2.1 = tids.take marks.toWake ∧
    (filtered Marks.filter marks tids).2.2 = tids.drop marks.toWake := by
  induction tids generalizing marks with
  | nil => simp [filtered]
  | cons tid rest ih =>
    obtain ⟨toWake, toMark, unparked, marked⟩ := marks
    cases toWake with
    | succ toWake =>
      have later := ih ⟨toWake, toMark, unparked ++ [tid], marked⟩
      simpa [filtered, Marks.filter] using later
    | zero =>
      cases toMark with
      | succ toMark =>
        have later := ih ⟨0, toMark, unparked, marked ++ [tid]⟩
        simp only [List.take_zero, List.drop_zero, List.append_nil] at later
        simp [filtered, Marks.filter, later]
      | zero => simp [filtered, Marks.filter]

section Documented

variable {Lot : Type} {lots : ParkingLot Lot} (documented : lots.Documented)
  {source target : FutexKey}

include documented

theorem relinkOne_taken (count : Nat) {fuel : Nat} (fuelled : count <= fuel) {lot : Lot}
    (enough : count <= (lots.parked lot source).length) :
    (relinkOne lots source target fuel count lot).2 = (lots.parked lot source).take count := by
  induction count generalizing lot fuel with
  | zero => cases fuel <;> rfl
  | succ count ih =>
    obtain ⟨fuel, rfl⟩ := Nat.exists_eq_succ_of_ne_zero (by omega : fuel ≠ 0)
    cases listed : lots.parked lot source with
    | nil =>
      rw [listed] at enough
      exact absurd enough (Nat.not_succ_le_zero count)
    | cons tid rest =>
      rw [listed, length_cons] at enough
      have short : count <= rest.length := Nat.le_of_succ_le_succ enough
      obtain ⟨moves, after⟩ := documented.requeuesOne lot source target tid rest listed
      have behind : ∃ tail, lots.parked
          (lots.unparkRequeue lot source target .requeueOne).1 source = rest ++ tail := by
        rw [after]
        unfold relinked
        by_cases same : source = target
        · subst same
          rw [Function.update_self, Function.update_self]
          exact ⟨[tid], rfl⟩
        · rw [Function.update_of_ne same, Function.update_self]
          exact ⟨[], (List.append_nil rest).symm⟩
      obtain ⟨tail, behind⟩ := behind
      unfold relinkOne
      dsimp only
      rw [moves, if_neg Nat.one_ne_zero, Nat.add_sub_cancel,
        ih (Nat.le_of_succ_le_succ fuelled) (by rw [behind, length_append]; omega), behind, listed,
        List.take_append_of_le_length short, List.take_succ_cons]
      rfl

theorem pass_marks (lot : Lot) (wake requeue : Nat) :
    (lots.unparkFilter lot source Marks.filter ⟨wake, requeue, [], []⟩).2.1.unparked =
      (lots.parked lot source).take wake ∧
    (lots.unparkFilter lot source Marks.filter ⟨wake, requeue, [], []⟩).2.1.marked =
      ((lots.parked lot source).drop wake).take requeue ∧
    (lots.unparkFilter lot source Marks.filter ⟨wake, requeue, [], []⟩).2.1.toMark =
      requeue - ((lots.parked lot source).drop wake).length ∧
    (lots.unparkFilter lot source Marks.filter ⟨wake, requeue, [], []⟩).2.2 =
      ((lots.parked lot source).take wake).length ∧
    lots.parked (lots.unparkFilter lot source Marks.filter ⟨wake, requeue, [], []⟩).1 source =
      (lots.parked lot source).drop wake := by
  rw [documented.marks, documented.unparked, documented.stays]
  obtain ⟨unparked, marked, left, count, stays⟩ :=
    filtered_marks (lots.parked lot source) ⟨wake, requeue, [], []⟩
  exact ⟨unparked, marked, left, congrArg List.length count, stays⟩

theorem relink_taken (lot : Lot) (requeue : Nat) :
    (relink lots lot source target ((lots.parked lot source).take requeue).length
      (requeue - (lots.parked lot source).length)).2 = (lots.parked lot source).take requeue := by
  unfold relink
  by_cases some : 0 < ((lots.parked lot source).take requeue).length
  · rw [if_pos some]
    by_cases more : 0 < requeue - (lots.parked lot source).length
    · rw [if_pos more]
      unfold relinkAll
      dsimp only
      rw [documented.requeuesAll, List.take_length, List.take_of_length_le (by omega)]
    rw [if_neg more, relinkOne_taken documented _ le_rfl (by rw [length_take]; omega),
      length_take]
    rcases Nat.le_total requeue (lots.parked lot source).length with short | long
    · rw [Nat.min_eq_left short]
    · rw [Nat.min_eq_right long, List.take_length, List.take_of_length_le long]
  · rw [if_neg some]
    have none : (lots.parked lot source).take requeue = [] := length_eq_zero_iff.mp (by omega)
    rw [none]

end Documented

/-! ## The whole call -/

section Requeue

variable {hash : FutexKey -> Nat} {Lot : Type} {lots : ParkingLot Lot} {table : FutexTable lots}
  {source target : FutexKey} {wake requeue : Nat}

theorem listeners_view : ∃ rest,
    (table.tickets.queues (shardIndex hash source)).byAddr source =
      table.listenerRounds hash source wake ++ rest ∧
    View (table.listeners hash source wake).1 (shardIndex hash source) source rest
      (fun id => (table.tickets.upgrade id).isSome) ∧
    (table.listeners hash source wake).2 = (table.listenerRounds hash source wake).filter
      (fun id => (table.tickets.upgrade id).isSome) ∧
    (table.listeners hash source wake).2.length <= wake ∧
    ((table.listeners hash source wake).2.length < wake -> rest = []) := by
  have view := @View.of_indexed table.tickets (shardIndex hash source) source (table.indexed _)
  unfold FutexTable.listeners FutexTable.listenerRounds
  by_cases some : 0 < wake
  · rw [if_pos some, if_pos some]
    exact consume_view _ wake view le_rfl
  · rw [if_neg some, if_neg some]
    exact ⟨_, rfl, view, rfl, Nat.zero_le _, fun fewer => absurd fewer (by omega)⟩

theorem move_le_rounds (fuel limit : Nat) (tickets : Table) :
    (Table.move hash source target fuel limit tickets).2.length <=
      (Table.moveRounds hash source target fuel limit tickets).length := by
  induction fuel generalizing limit tickets with
  | zero => exact Nat.le_refl 0
  | succ fuel ih =>
    cases limit with
    | zero => exact Nat.le_refl 0
    | succ limit =>
      unfold Table.move Table.moveRounds
      cases (tickets.queues (shardIndex hash source)).byAddr source with
      | nil => exact Nat.le_refl 0
      | cons id rest =>
        dsimp only
        cases (tickets.queues (shardIndex hash source)).entries id with
        | none => exact Nat.le_refl 0
        | some entry =>
          dsimp only
          rcases tickets.moveFirst hash source target id entry with ⟨later, moved⟩
          cases moved with
          | false =>
            refine Nat.le_trans (ih (limit + 1) later) ?_
            exact Nat.le_succ _
          | true => exact Nat.succ_le_succ (ih limit later)

/-- The moves are bounded where a moved ticket leaves the source, where there is at most
one of them, and where no ticket is live. -/
theorem requeued_bounded {tickets : Table} {rest : List Nat} {live : Nat -> Bool} {left : Nat}
    (view : View tickets (shardIndex hash source) source rest live)
    (few : source ≠ target ∨ left <= 1 ∨ rest.filter live = []) :
    (tickets.requeuedRounds hash source target left).length <= rest.length ∧
      (tickets.requeuedListeners hash source target left).2.Nodup ∧
      (tickets.requeuedListeners hash source target left).2.length <=
        (tickets.requeuedRounds hash source target left).length := by
  unfold Table.requeuedRounds Table.requeuedListeners Table.requeueTickets
  by_cases some : 0 < left
  · rw [if_pos some, if_pos some, view.listed]
    refine ⟨?_, ?_, move_le_rounds _ _ _⟩
    · by_cases apart : source = target
      · subst apart
        exact (move_same _ left view le_rfl).2
          (few.resolve_left (fun differs => differs rfl))
      · rcases move_view apart (rest.length + left) left view with ⟨after, parts, _⟩
        have counted := congrArg List.length parts
        rw [length_append] at counted
        omega
    by_cases apart : source = target
    · subst apart
      rw [(move_same _ left view le_rfl).1]
      rcases few.resolve_left (fun differs => differs rfl) with one | none
      · have only : left = 1 := by omega
        subst only
        cases rest.filter live with
        | nil => exact nodup_nil
        | cons id further => exact List.nodup_singleton id
      · rw [none]
        exact nodup_nil
    · rcases move_view apart (rest.length + left) left view with ⟨after, parts, moved⟩
      have distinct : rest.Nodup :=
        view.sorted.imp (fun below => Nat.ne_of_lt below)
      rw [parts] at distinct
      rw [moved]
      exact distinct.of_append_left.filter _
  · rw [if_neg some, if_neg some]
    exact ⟨Nat.zero_le _, nodup_nil, Nat.le_refl 0⟩

theorem live_left {rest rounds : List Nat} {live : Nat -> Bool} {ids : List Nat}
    (parts : ids = rounds ++ rest) :
    (ids.filter live).length = (rounds.filter live).length + (rest.filter live).length := by
  rw [parts, List.filter_append, length_append]

theorem moved_nodup {tickets threads : List Nat} (first : tickets.Nodup) (second : threads.Nodup) :
    (tickets.map Waiter.ticket ++ threads.map Waiter.thread).Nodup := by
  refine List.nodup_append.mpr ⟨?_, ?_, ?_⟩
  · exact first.map (fun _ _ same => Waiter.ticket.inj same)
  · exact second.map (fun _ _ same => Waiter.thread.inj same)
  intro waiter isTicket other isThread same
  rcases mem_map.mp isTicket with ⟨id, _, named⟩
  rcases mem_map.mp isThread with ⟨tid, _, otherNamed⟩
  rw [<- named, <- otherNamed] at same
  cases same

/-- A requeue is bounded by the waiters of its source unless it moves tickets of the
source to the source itself, and more than one of them. -/
theorem requeue_bounded (documented : lots.Documented) (hash : FutexKey -> Nat)
    (table : FutexTable lots) (source target : FutexKey) (wake requeue : Nat) :
    Bounded hash table source target wake requeue <->
      source ≠ target ∨ table.present source = false ∨
        (table.tickets.waiting hash source).length <= wake ∨
        requeue <= (lots.parked table.lot source).length + 1 := by
  rcases @listeners_view hash _ lots table source wake with
    ⟨rest, parts, view, woken, fits, ended⟩
  obtain ⟨unparked, marked, left, count, stays⟩ := @pass_marks _ lots documented source table.lot
    (wake - (table.listeners hash source wake).2.length) requeue
  have counted := @live_left rest _ (fun id => (table.tickets.upgrade id).isSome) _ parts
  rw [<- woken] at counted
  have lengths := congrArg List.length parts
  rw [length_append] at lengths
  have wokenRounds : (table.listeners hash source wake).2.length <=
      (table.listenerRounds hash source wake).length := by
    rw [woken]
    exact List.length_filter_le _ _
  constructor
  · intro bounded
    by_contra outside
    rw [not_or, not_or, not_or, not_not] at outside
    rcases outside with ⟨same, there, waiting, many⟩
    subst same
    have once := bounded.once
    unfold FutexTable.requeue at once
    rw [if_neg there] at once
    dsimp only at once
    unfold Table.waiting at waiting
    have full : (table.listeners hash source wake).2.length = wake := by
      by_contra fewer
      rw [ended (by omega)] at counted
      rw [List.filter_nil, List.length_nil] at counted
      omega
    rw [full, Nat.sub_self, List.drop_zero] at left
    have twice : 2 <= requeue - (lots.parked table.lot source).length := by omega
    rw [full, Nat.sub_self, left] at once
    generalize requeue - (lots.parked table.lot source).length = more at once twice
    have moves := once.of_append_left
    unfold Table.requeuedListeners Table.requeueTickets at moves
    rw [if_pos (by omega), view.listed, (move_same _ more view le_rfl).1] at moves
    cases alive : rest.filter (fun id => (table.tickets.upgrade id).isSome) with
    | nil =>
      rw [alive, List.length_nil] at counted
      omega
    | cons id further =>
      rw [alive] at moves
      dsimp only at moves
      have flat := List.Nodup.of_map _ moves
      rw [List.nodup_replicate] at flat
      omega
  intro allowed
  by_cases there : table.present source = false
  · constructor
    all_goals
      unfold FutexTable.requeue
      rw [if_pos there]
    · exact Nat.zero_le _
    · exact Nat.zero_le _
    · exact nodup_nil
    · exact Nat.zero_le _
    · exact Nat.zero_le _
    · exact Nat.zero_le _
  have few : source ≠ target ∨ requeue - ((lots.parked table.lot source).drop
      (wake - (table.listeners hash source wake).2.length)).length <= 1 ∨
      rest.filter (fun id => (table.tickets.upgrade id).isSome) = [] := by
    rcases allowed with apart | absent | served | short
    · exact .inl apart
    · exact absurd absent there
    · refine .inr (.inr ?_)
      unfold Table.waiting at served
      by_cases fewer : (table.listeners hash source wake).2.length < wake
      · rw [ended fewer]
        rfl
      · exact length_eq_zero_iff.mp (by omega)
    by_cases fewer : (table.listeners hash source wake).2.length < wake
    · refine .inr (.inr ?_)
      rw [ended fewer]
      rfl
    · refine .inr (.inl ?_)
      have full : wake - (table.listeners hash source wake).2.length = 0 := by omega
      rw [full, List.drop_zero]
      omega
  rw [<- left] at few
  rcases @requeued_bounded hash source target _ rest _ _ view few with
    ⟨moveSteps, moveOnce, moveCount⟩
  have relinks := @relink_taken _ lots documented source target (lots.unparkFilter table.lot source
    Marks.filter ⟨wake - (table.listeners hash source wake).2.length, requeue, [], []⟩).1 requeue
  rw [stays, <- marked, <- left] at relinks
  have split : ((lots.parked table.lot source).take
        (wake - (table.listeners hash source wake).2.length)).length +
      (((lots.parked table.lot source).drop
        (wake - (table.listeners hash source wake).2.length)).take requeue).length <=
      (lots.parked table.lot source).length := by
    rw [length_take, length_take, List.length_drop]
    omega
  rw [<- unparked, <- marked] at split
  rw [<- unparked] at count
  constructor
  all_goals
    unfold FutexTable.requeue
    rw [if_neg there]
    dsimp only
  · rw [relinks]
    unfold FutexTable.queued
    simp only [length_append, List.length_map]
    omega
  · rw [length_append]
    exact split
  · rw [relinks, marked]
    exact moved_nodup moveOnce
      (((table.distinct source).sublist (List.drop_sublist _ _)).sublist (List.take_sublist _ _))
  · exact Nat.min_le_right _ _
  · exact Nat.min_le_right _ _
  · unfold FutexTable.queued
    refine Nat.le_trans (Nat.add_le_add (Nat.min_le_left _ _) (Nat.min_le_left _ _)) ?_
    omega

end Requeue

/-- A parking lot that keeps a list of threads for each key. -/
def listLot : ParkingLot (FutexKey -> List Nat) where
  parked := id
  unparkFilter := fun lot key filter marks =>
    let after := filtered filter marks (lot key)
    (Function.update lot key after.2.2, after.1, after.2.1.length)
  unparkRequeue := fun lot source target op =>
    match op, lot source with
    | _, [] => (lot, 0)
    | .requeueOne, tid :: rest => (relinked lot source target [tid] rest, 1)
    | .requeueAll, tids => (relinked lot source target tids [], tids.length)

theorem listLot_documented : listLot.Documented where
  marks := fun _ _ _ _ => rfl
  unparked := fun _ _ _ _ => rfl
  stays := fun _ _ _ _ => Function.update_self ..
  requeuesOne := by
    intro lot source target tid rest listed
    change lot source = tid :: rest at listed
    simp [listLot, listed]
  requeuesAll := by
    intro lot source target
    cases listed : lot source <;> simp [listLot, listed]

/-- A word of a shared file, which a guest can map at two addresses. -/
def sharedFileWord : FutexKey :=
  .sharedWord (.file { device := 1, inode := 2 } 0)

def oneTicket : Table where
  queues := fun shard =>
    if shard = 0 then FutexQueue.empty.insert 0 { addr := sharedFileWord, callback := none }
    else FutexQueue.empty
  slots := fun id => if id = 0 then some ⟨.queued, 0, sharedFileWord, 1, 0, .live⟩ else none
  nextTicket := 1
  thread := fun _ => .idle

/-- One ticket is queued on the word, and some threads are parked on it. -/
def waitersOn (tids : List Nat) (distinct : tids.Nodup) : FutexTable listLot where
  tickets := oneTicket
  lot := fun key => if key = sharedFileWord then tids else []
  redirect := fun _ => none
  present := fun _ => true
  indexed := by
    intro shard
    unfold oneTicket
    dsimp only
    split_ifs
    · exact indexed_empty.insert rfl
    · exact indexed_empty
  distinct := by
    intro key
    change (if key = sharedFileWord then tids else []).Nodup
    split_ifs
    · exact distinct
    · exact nodup_nil

/-- A requeue to another word wakes the ticket and one of three threads and moves the
other two. -/
theorem requeue_bounded_apart :
    (((waitersOn [5, 6, 7] (by decide)).requeue (fun _ => 0) sharedFileWord (.privateWord 0) 2
      4).woken, ((waitersOn [5, 6, 7] (by decide)).requeue (fun _ => 0) sharedFileWord
      (.privateWord 0) 2 4).moved) = (2, [.thread 6, .thread 7]) ∧
    Bounded (fun _ => 0) (waitersOn [5, 6, 7] (by decide)) sharedFileWord (.privateWord 0) 2 4 :=
  ⟨by decide +kernel, (requeue_bounded listLot_documented _ _ _ _ _ _).mpr (.inl nofun)⟩

/-- A requeue from a word to itself moves its one waiter as often as it is asked to. -/
theorem requeue_repeats :
    ¬ ∀ hash (table : FutexTable listLot) source target wake requeue,
      Bounded hash table source target wake requeue := by
  intro always
  have once := (always (fun _ => 0) (waitersOn [] nodup_nil) sharedFileWord sharedFileWord 0 3).once
  have moved : ((waitersOn [] nodup_nil).requeue (fun _ => 0) sharedFileWord sharedFileWord 0
      3).moved = [.ticket 0, .ticket 0, .ticket 0] := by
    decide +kernel
  rw [moved] at once
  exact absurd once (by decide)

end FutexTickets
end Carrick
