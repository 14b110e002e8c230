import Carrick.Zone.Requeues

namespace Carrick
namespace Zone

open Foundation

/-!
# Runs of the futex queues

The operations on the queues, each under the locks of the buckets that it works
on, and what holds after any sequence of them: the tables hold together, a wake
takes its waiters in queue order, and a requeue keeps that order.
-/

/-- What a party does under its bucket locks.  A record's claim is changed by its
owner in between. -/
inductive Operation where
  | enqueue (record seq mm uaddr bitset index : Nat)
  | publish (record seq : Nat)
  | publishGuest (record seq : Nat)
  | withdraw (record : Nat)
  | unlinkAll (record : Nat)
  | wakeEl1 (mm uaddr bitset count : Nat) (placement : Tables -> Nat -> Option Nat)
      (place : Tables -> Nat -> Nat)
  | wakeBatch (mm uaddr bitset count batch : Nat)
  | wakeHost (mm uaddr bitset count : Nat) (place : Tables -> Nat -> Option Nat)
  | requeue (mm origin destination count : Nat)
  | hold (record : Nat) (claim : Claim)

/-- The bucket whose lock the owner of a record holds to undo its enrolment. -/
def enrolledBucket (zone : Tables) (record : Nat) : Nat :=
  (zone.entry (zone.record record).firstEntry).bucket

def perform (zone : Tables) : Operation -> Tables
  | .enqueue record seq mm uaddr bitset index =>
    (zone.enqueue (bucketOf mm uaddr) record seq mm uaddr bitset index).getD zone
  | .publish record seq => zone.publishPark record seq
  | .publishGuest record seq => zone.publishGuestPark (enrolledBucket zone record) record seq
  | .withdraw record => zone.withdrawGuestPark (enrolledBucket zone record) record
  | .unlinkAll record => zone.unlinkAll record (zoneEntries + 1)
  | .wakeEl1 mm uaddr bitset count placement place =>
    match zone.wakeEl1 (bucketOf mm uaddr) mm uaddr bitset count placement place with
    | .ok result => result.1
    | .error _ => zone
  | .wakeBatch mm uaddr bitset count batch =>
    (zone.wakeBatch (bucketOf mm uaddr) mm uaddr bitset count batch).1
  | .wakeHost mm uaddr bitset count place =>
    (zone.wakeHost (bucketOf mm uaddr) mm uaddr bitset count place).1
  | .requeue mm origin destination count =>
    (zone.requeue (bucketOf mm origin) (bucketOf mm destination) mm origin destination count).1
  | .hold record claim => zone.setRecord record { zone.record record with claim := claim }

/-- A record's identifier is not zero, and a requeue is between two addresses. -/
def Admissible (_ : Tables) : Operation -> Prop
  | .enqueue record _ _ _ _ _ => record ≠ 0
  | .requeue _ origin destination _ => origin ≠ destination
  | _ => True

/-- A zone that nobody has parked in. -/
def empty : Tables where
  entry := fun _ =>
    { next := 0, prev := 0, record := 0, sibling := 0, bucket := 0, seq := 0, bitset := 0,
      index := 0, mm := 0, uaddr := 0 }
  bucket := fun _ => { head := 0, tail := 0, len := 0 }
  record := fun _ =>
    { claim := .free, result := 0, handback := none, firstEntry := 0, entryCount := 0, lastSeq := 0,
      deadline := 0, objectOperation := false }
  entryMap := fun _ => false

theorem empty_formed : Formed empty (fun _ => []) (fun _ => []) where
  queued := by
    constructor
    · exact fun _ => rfl
    · exact fun _ => rfl
    · exact fun _ => rfl
    · exact fun _ => List.nodup_nil
    · exact fun _ => List.not_mem_nil
    · exact fun _ _ _ wrong => absurd wrong List.not_mem_nil
  chained := by
    constructor
    · exact fun _ => rfl
    · exact fun _ => rfl
    · exact fun _ => List.nodup_nil
    · exact fun _ => List.not_mem_nil
    · exact fun _ _ _ wrong => absurd wrong List.not_mem_nil
  listed := fun _ _ => ⟨fun wrong => absurd wrong List.not_mem_nil, fun both => by cases both.1⟩
  held := fun _ _ => ⟨fun wrong => absurd wrong List.not_mem_nil, fun both => by cases both.1⟩
  used := nofun
  home := nofun

/-! ## Every operation keeps the tables together -/

/-- There are queues and chains that the tables hold. -/
def Whole (zone : Tables) : Prop :=
  ∃ queue chain, Formed zone queue chain

section Keeps

variable {zone : Tables} {queue chain : Nat -> List Nat} {record : Nat}

section Formed

variable (formed : Formed zone queue chain)

include formed

theorem first_eq :
    (zone.record record).firstEntry = (chain record).head?.getD 0 :=
  (formed.chained.path record).start_eq

theorem first_listed (nonzero : (zone.record record).firstEntry ≠ 0) :
    (zone.record record).firstEntry ∈ chain record ∧
      (zone.record record).firstEntry ∈ queue (enrolledBucket zone record) := by
  have inChain : (zone.record record).firstEntry ∈ chain record := by
    rw [first_eq formed] at nonzero ⊢
    cases first : (chain record).head? with
    | none =>
      rw [first] at nonzero
      exact absurd rfl nonzero
    | some id => exact List.mem_of_head? first
  refine ⟨inChain, ?_⟩
  have allocated := ((formed.held record _).mp inChain).1
  exact (formed.listed _ _).mpr ⟨allocated, rfl⟩

theorem withdraw_whole :
    Whole (zone.withdrawGuestPark (enrolledBucket zone record) record) := by
  unfold Tables.withdrawGuestPark
  dsimp only
  by_cases none : (zone.record record).firstEntry = 0
  · rw [if_pos none]
    exact ⟨queue, chain, formed.setRecord rfl rfl⟩
  · rw [if_neg none]
    rcases first_listed formed none with ⟨inChain, inQueue⟩
    exact ⟨_, _, (formed.release inQueue inChain).setRecord rfl rfl⟩

theorem publishGuest_whole {seq : Nat} :
    Whole (zone.publishGuestPark (enrolledBucket zone record) record seq) := by
  unfold Tables.publishGuestPark
  split
  · exact ⟨queue, chain, formed.setRecord rfl rfl⟩
  · exact ⟨queue, chain, formed.setRecord rfl rfl⟩
  · exact withdraw_whole formed

theorem unlinkAll_whole {fuel : Nat} :
    Whole (zone.unlinkAll record fuel) := by
  induction fuel generalizing zone queue chain with
  | zero => exact ⟨queue, chain, formed⟩
  | succ fuel ih =>
    unfold Tables.unlinkAll
    dsimp only
    by_cases none : (zone.record record).firstEntry = 0
    · rw [if_pos none]
      exact ⟨queue, chain, formed⟩
    · rw [if_neg none]
      rcases first_listed formed none with ⟨inChain, inQueue⟩
      exact ih (formed.release inQueue inChain)

theorem requeue_moved {mm origin destination count : Nat} (apart : origin ≠ destination) :
    Moved zone (zone.requeue (bucketOf mm origin) (bucketOf mm destination) mm origin destination
        count).1 queue chain (bucketOf mm destination) destination
        (zone.requeue (bucketOf mm origin) (bucketOf mm destination) mm origin destination count).2 ∧
      (zone.requeue (bucketOf mm origin) (bucketOf mm destination) mm origin destination count).2 =
        ((queue (bucketOf mm origin)).filter
          (fun id => (zone.eligible mm origin 4294967295 id).isSome)).take count := by
  have bound := formed.queue_length_le (bucketOf mm origin)
  unfold Tables.requeue
  rw [formed.queued.head_eq]
  refine @requeue_walk _ _ mm origin destination chain apart rfl (queue (bucketOf mm origin)) [] []
    zone queue Tables.rounds count _ formed ?_ ?_ ?_ ?_
  · simp
  · intro id wrong
    cases wrong
  · unfold Tables.rounds
    rw [List.length_nil]
    omega
  · rw [List.append_nil]
    exact .inl rfl

end Formed

theorem perform_whole {operation : Operation} (whole : Whole zone)
    (admissible : Admissible zone operation) : Whole (perform zone operation) := by
  rcases whole with ⟨queue, chain, formed⟩
  cases operation with
  | enqueue record seq mm uaddr bitset index =>
    unfold perform Tables.enqueue
    cases found : zone.allocEntry with
    | none => exact ⟨queue, chain, formed⟩
    | some id => exact ⟨_, _, formed.enqueue admissible found⟩
  | publish record seq => exact ⟨queue, chain, formed.setRecord rfl rfl⟩
  | publishGuest record seq => exact publishGuest_whole formed
  | withdraw record => exact withdraw_whole formed
  | unlinkAll record => exact unlinkAll_whole formed
  | wakeEl1 mm uaddr bitset count placement place =>
    rw [perform]
    cases woken : zone.wakeEl1 (bucketOf mm uaddr) mm uaddr bitset count placement place with
    | error refusal => exact ⟨queue, chain, formed⟩
    | ok result => exact ⟨_, _, (wakeEl1_served formed woken).1.formed⟩
  | wakeBatch mm uaddr bitset count batch => exact ⟨_, _, (wakeBatch_served formed).1.formed⟩
  | wakeHost mm uaddr bitset count place => exact ⟨_, _, (wakeHost_served formed).1.formed⟩
  | requeue mm origin destination count =>
    exact ⟨_, _, (requeue_moved formed admissible).1.formed⟩
  | hold record claim => exact ⟨queue, chain, formed.setRecord rfl rfl⟩

theorem run_whole {history : List Operation}
    (guarded : Guarded perform empty Admissible history) : Whole (replay perform empty history) :=
  replay_invariant Whole ⟨_, _, empty_formed⟩
    (fun _ _ admissible whole => perform_whole whole admissible) guarded

end Keeps

/-! ## Wakes and requeues in order -/

/-- The parked waiters of an address, in the order of its queue. -/
def waiting (zone : Tables) (queue : Nat -> List Nat) (mm uaddr bitset : Nat) : List Nat :=
  waiters zone mm uaddr bitset (queue (bucketOf mm uaddr))

/-- A wake of `count` took the first waiters of the address, and as many as it says. -/
structure InOrder (zone : Tables) (queue chain : Nat -> List Nat) (mm uaddr bitset count : Nat)
    (result : Tables × List Nat) : Prop where
  served : Served zone result.1 queue chain result.2
  first : result.2.map (fun id => (zone.entry id).record) =
    (waiting zone queue mm uaddr bitset).take count
  number : result.2.length = min count (waiting zone queue mm uaddr bitset).length

theorem inOrder {zone : Tables} {queue chain : Nat -> List Nat} {mm uaddr bitset count : Nat}
    {result : Tables × List Nat}
    (both : Served zone result.1 queue chain result.2 ∧
      result.2.map (fun id => (zone.entry id).record) =
        (waiters zone mm uaddr bitset (queue (bucketOf mm uaddr))).take count) :
    InOrder zone queue chain mm uaddr bitset count result where
  served := both.1
  first := both.2
  number := by
    have counted := congrArg List.length both.2
    rw [List.length_map, List.length_take] at counted
    exact counted

/-- The waiters of an address are the parked records that have an entry for it, and
each is listed once. -/
theorem waiting_spec {zone : Tables} {queue chain : Nat -> List Nat} {mm uaddr bitset : Nat}
    (formed : Formed zone queue chain) :
    (waiting zone queue mm uaddr bitset).Nodup ∧
      ∀ record, record ∈ waiting zone queue mm uaddr bitset <->
        ∃ id, zone.entryMap id = true ∧ zone.eligible mm uaddr bitset id = some record := by
  refine ⟨(eraseDups_nodup_length _).1, ?_⟩
  intro record
  unfold waiting
  rw [mem_waiters]
  constructor
  · rintro ⟨id, inQueue, found⟩
    exact ⟨id, ((formed.listed _ id).mp inQueue).1, found⟩
  · rintro ⟨id, allocated, found⟩
    rcases eligible_some.mp found with ⟨sameMm, sameUaddr, _⟩
    refine ⟨id, (formed.listed _ id).mpr ⟨allocated, ?_⟩, found⟩
    rw [formed.home id allocated, sameMm, sameUaddr]

/-- What wakes and requeues do to tables that hold together.  A host wake through a
batch takes no more than its batch, and the loop over batches takes as many as it is
asked for. -/
structure Ordered (zone : Tables) (queue chain : Nat -> List Nat) : Prop where
  waiters : ∀ mm uaddr bitset, (waiting zone queue mm uaddr bitset).Nodup ∧
    ∀ record, record ∈ waiting zone queue mm uaddr bitset <->
      ∃ id, zone.entryMap id = true ∧ zone.eligible mm uaddr bitset id = some record
  guest : ∀ mm uaddr bitset count placement place result,
    zone.wakeEl1 (bucketOf mm uaddr) mm uaddr bitset count placement place = .ok result ->
      InOrder zone queue chain mm uaddr bitset count result
  refused : ∀ mm uaddr bitset count placement place refusal,
    zone.wakeEl1 (bucketOf mm uaddr) mm uaddr bitset count placement place = .error refusal ->
      perform zone (.wakeEl1 mm uaddr bitset count placement place) = zone
  host : ∀ mm uaddr bitset count place,
    InOrder zone queue chain mm uaddr bitset count
      (zone.wakeHost (bucketOf mm uaddr) mm uaddr bitset count place)
  batch : ∀ mm uaddr bitset count batch,
    InOrder zone queue chain mm uaddr bitset (min count batch)
      (zone.wakeBatch (bucketOf mm uaddr) mm uaddr bitset count batch)
  batches : ∀ mm uaddr count,
    InOrder zone queue chain mm uaddr 4294967295 count
      (Tables.wakeLoop (bucketOf mm uaddr) mm uaddr count count zone)
  moved : ∀ mm origin destination count, origin ≠ destination ->
    Moved zone (zone.requeue (bucketOf mm origin) (bucketOf mm destination) mm origin destination
        count).1 queue chain (bucketOf mm destination) destination
        (zone.requeue (bucketOf mm origin) (bucketOf mm destination) mm origin destination count).2 ∧
      (zone.requeue (bucketOf mm origin) (bucketOf mm destination) mm origin destination count).2 =
        ((queue (bucketOf mm origin)).filter
          (fun id => (zone.eligible mm origin 4294967295 id).isSome)).take count

theorem Formed.ordered {zone : Tables} {queue chain : Nat -> List Nat}
    (formed : Formed zone queue chain) : Ordered zone queue chain where
  waiters := fun _ _ _ => waiting_spec formed
  guest := fun _ _ _ _ _ _ _ ok => inOrder (wakeEl1_served formed ok)
  refused := by
    intro mm uaddr bitset count placement place refusal refused
    rw [perform, refused]
  host := fun _ _ _ _ _ => inOrder (wakeHost_served formed)
  batch := fun _ _ _ _ _ => inOrder (wakeBatch_served formed)
  batches := fun _ _ count => inOrder (wakeLoop_served formed (Nat.le_refl count))
  moved := fun _ _ _ _ apart => requeue_moved formed apart

/-- After every run the buckets and the chains are well formed, a wake that is not
refused claims the first waiters of its address in queue order and says how many, a
wake that is refused changes nothing, and a requeue moves the first waiters to the end
of the destination in order. -/
theorem queues_keep_order (history : List Operation)
    (guarded : Guarded perform empty Admissible history) :
    ∃ queue chain, Formed (replay perform empty history) queue chain ∧
      Ordered (replay perform empty history) queue chain := by
  rcases run_whole guarded with ⟨queue, chain, formed⟩
  exact ⟨queue, chain, formed, formed.ordered⟩

/-- As many records as given park on an address, one after the other. -/
def parkedOn : Nat -> List Operation
  | 0 => []
  | count + 1 => .publish (count + 1) 1 :: .enqueue (count + 1) 1 7 64 1 0 :: parkedOn count

theorem parkedOn_guarded (count : Nat) : Guarded perform empty Admissible (parkedOn count) := by
  induction count with
  | zero => trivial
  | succ count ih => exact ⟨trivial, Nat.succ_ne_zero count, ih⟩

/-- Three records park, the first is requeued to another address, and a wake takes the
next one. -/
theorem queues_keep_order_three :
    let zone := replay perform empty
      (.wakeHost 7 64 1 1 (fun _ _ => some 5) :: .requeue 7 64 68 1 :: parkedOn 3)
    (zone.record 2).claim = .queued 5 1 ∧ ∃ queue chain, Formed zone queue chain ∧
      Ordered zone queue chain ∧ 3 ∈ waiting zone queue 7 64 1 ∧ 1 ∈ waiting zone queue 7 68 1 := by
  intro zone
  rcases queues_keep_order
    (.wakeHost 7 64 1 1 (fun _ _ => some 5) :: .requeue 7 64 68 1 :: parkedOn 3)
    ⟨trivial, (by decide : 64 ≠ 68), parkedOn_guarded 3⟩ with ⟨queue, chain, formed, ordered⟩
  refine ⟨by decide +kernel, queue, chain, formed, ordered, ?_, ?_⟩
  · exact ((ordered.waiters 7 64 1).2 3).mpr ⟨3, by decide +kernel⟩
  · exact ((ordered.waiters 7 68 1).2 1).mpr ⟨1, by decide +kernel⟩

/-- A host wake of 65 waiters through the batch of its callers, which holds 64, leaves
one behind. -/
theorem batch_takes_fewer :
    ¬ ∀ history, Guarded perform empty Admissible history ->
      ∀ queue chain, Formed (replay perform empty history) queue chain ->
        ∀ mm uaddr bitset count,
          ((replay perform empty history).wakeBatch (bucketOf mm uaddr) mm uaddr bitset count
            64).2.length =
            min count (waiting (replay perform empty history) queue mm uaddr bitset).length := by
  intro always
  rcases run_whole (parkedOn_guarded 65) with ⟨queue, chain, formed⟩
  have number := always (parkedOn 65) (parkedOn_guarded 65) queue chain formed 7 64 1 65
  have taken := (formed.ordered.batch 7 64 1 65 64).number
  have listed : ∀ record ∈ List.range' 1 65,
      (replay perform empty (parkedOn 65)).entryMap record = true ∧
        (replay perform empty (parkedOn 65)).eligible 7 64 1 record = some record := by
    decide +kernel
  have waits : List.range' 1 65 ⊆ waiting (replay perform empty (parkedOn 65)) queue 7 64 1 :=
    fun record member => ((waiting_spec formed).2 record).mpr ⟨record, listed record member⟩
  have many := (List.subperm_of_subset (List.nodup_range' 1) waits).length_le
  rw [List.length_range'] at many
  omega

end Zone
end Carrick
