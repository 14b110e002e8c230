import Carrick.FutexTickets.Loops

namespace Carrick
namespace FutexTickets

open Foundation

/-!
# References and the account of a run

Who still refers to a slot decides whether a wake finds its waiter, so the calls
in flight and the drops that are running are part of the invariant.  The history
of a run names the tickets that wakes consumed and the tickets that were released;
the account compares it with the slots.
-/

/-! ## References -/

/-- The thread is dropping the slot, whose last reference is gone. -/
def Phase.Drops : Phase -> Nat -> Prop
  | .dropping dropped, id => dropped = id
  | .dropAt dropped _, id => dropped = id
  | _, _ => False

/-- A phase that neither prepares a ticket nor drops a slot. -/
def Phase.Plain (phase : Phase) : Prop :=
  (∀ id key, phase ≠ .preparing id key) ∧ ∀ id, ¬ phase.Drops id

structure References (table : Table) : Prop where
  fresh : ∀ id, table.nextTicket <= id -> table.slots id = none
  preparing : ∀ thread id key, table.thread thread = .preparing id key ->
    id < table.nextTicket ∧ table.slots id = none
  preparingOnce : ∀ one two id key other, table.thread one = .preparing id key ->
    table.thread two = .preparing id other -> one = two
  held : ∀ id slot, table.slots id = some slot ->
    0 < slot.tokens ∨ 0 < slot.subscriptions ∨ (∃ thread, (table.thread thread).Holds id) ->
    slot.life = .live
  dropping : ∀ thread id, (table.thread thread).Drops id ->
    ∃ slot, table.slots id = some slot ∧ slot.life = .dropping ∧ slot.state = .queued
  droppingAt : ∀ thread id shard slot, table.thread thread = .dropAt id shard ->
    table.slots id = some slot -> slot.queue = shard
  droppingOnce : ∀ one two id, (table.thread one).Drops id -> (table.thread two).Drops id ->
    one = two

section Threads

variable (table : Table) {thread other : Nat} (phase : Phase)

@[simp] theorem setThread_self : (table.setThread thread phase).thread thread = phase := by
  show Function.update table.thread thread phase thread = phase
  rw [Function.update_self]

theorem setThread_other (different : other ≠ thread) :
    (table.setThread thread phase).thread other = table.thread other := by
  show Function.update table.thread thread phase other = _
  rw [Function.update_of_ne different]

end Threads

/-- Slots with references may change, and threads may enter and leave plain
phases. -/
theorem References.change {table later : Table} (references : References table)
    (nextTicket : later.nextTicket = table.nextTicket)
    (slots : ∀ id, later.slots id = table.slots id ∨ ∃ before after,
      table.slots id = some before ∧ before.life = .live ∧
        later.slots id = some after ∧ after.life = .live)
    (threads : ∀ thread, later.thread thread = table.thread thread ∨
      (later.thread thread).Plain ∧ ∀ id, (later.thread thread).Holds id ->
        ∀ slot, later.slots id = some slot -> slot.life = .live) : References later := by
  have absent : ∀ id, table.slots id = none -> later.slots id = none := by
    intro id none
    rcases slots id with same | ⟨before, _, found, _⟩
    · exact same.trans none
    · rw [none] at found
      cases found
  have unchanged : ∀ id slot, table.slots id = some slot -> slot.life ≠ .live ->
      later.slots id = some slot := by
    intro id slot found dead
    rcases slots id with same | ⟨before, _, foundBefore, live, _⟩
    · exact same.trans found
    · rw [found] at foundBefore
      cases foundBefore
      exact absurd live dead
  have drops : ∀ thread id, (later.thread thread).Drops id -> (table.thread thread).Drops id := by
    intro thread id dropping
    rcases threads thread with same | ⟨plain, _⟩
    · rwa [same] at dropping
    · exact absurd dropping (plain.2 id)
  have prepares : ∀ thread id key, later.thread thread = .preparing id key ->
      table.thread thread = .preparing id key := by
    intro thread id key preparing
    rcases threads thread with same | ⟨plain, _⟩
    · rwa [same] at preparing
    · exact absurd preparing (plain.1 id key)
  refine ⟨?_, ?_, ?_, ?_, ?_, ?_, ?_⟩
  · intro id above
    rw [nextTicket] at above
    exact absent id (references.fresh id above)
  · intro thread id key preparing
    rcases references.preparing thread id key (prepares thread id key preparing) with ⟨below, none⟩
    rw [nextTicket]
    exact ⟨below, absent id none⟩
  · intro one two id key other preparingOne preparingTwo
    exact references.preparingOnce one two id key other (prepares one id key preparingOne)
      (prepares two id other preparingTwo)
  · intro id slot found referred
    rcases slots id with same | ⟨_, after, _, _, foundAfter, live⟩
    · rw [same] at found
      rcases referred with tokens | subscriptions | ⟨thread, holds⟩
      · exact references.held id slot found (.inl tokens)
      · exact references.held id slot found (.inr (.inl subscriptions))
      · rcases threads thread with sameThread | ⟨_, held⟩
        · rw [sameThread] at holds
          exact references.held id slot found (.inr (.inr ⟨thread, holds⟩))
        · exact held id holds slot (same.trans found)
    · rw [foundAfter] at found
      cases found
      exact live
  · intro thread id dropping
    rcases references.dropping thread id (drops thread id dropping) with ⟨slot, found, life, queued⟩
    have dead : slot.life ≠ .live := by
      rw [life]
      intro wrong
      cases wrong
    exact ⟨slot, unchanged id slot found dead, life, queued⟩
  · intro thread id shard slot dropping found
    have before : table.thread thread = .dropAt id shard := by
      rcases threads thread with same | ⟨plain, _⟩
      · rwa [same] at dropping
      · refine absurd ?_ (plain.2 id)
        rw [dropping]
        rfl
    have running : (table.thread thread).Drops id := by
      rw [before]
      rfl
    rcases references.dropping thread id running with ⟨slotBefore, foundBefore, life, _⟩
    have dead : slotBefore.life ≠ .live := by
      rw [life]
      intro wrong
      cases wrong
    have same := unchanged id slotBefore foundBefore dead
    rw [found] at same
    cases same
    exact references.droppingAt thread id shard slot before foundBefore
  · intro one two id dropOne dropTwo
    exact references.droppingOnce one two id (drops one id dropOne) (drops two id dropTwo)

/-! ## The account -/

/-- The tickets that wakes consumed. -/
def consumedIn : List Event -> List Nat
  | [] => []
  | .woke _ _ consumed :: earlier => consumed ++ consumedIn earlier
  | _ :: earlier => consumedIn earlier

/-- The tickets that left without a wake. -/
def releasedIn : List Event -> List Nat
  | [] => []
  | .released id :: earlier => id :: releasedIn earlier
  | _ :: earlier => releasedIn earlier

/-- The key that a ticket was put on last. -/
def lastPlace : List Event -> Nat -> Option FutexKey
  | [], _ => none
  | .prepared ticket key :: earlier, id => if ticket = id then some key else lastPlace earlier id
  | .moved _ target _ tickets :: earlier, id =>
    if id ∈ tickets then some target else lastPlace earlier id
  | _ :: earlier, id => lastPlace earlier id

/-- How often a slot says that its ticket was woken. -/
def wokenCount : Option FutexQueueSlot -> Nat
  | none => 0
  | some slot => if slot.state = .woken then 1 else 0

/-- How often a slot says that its ticket was released. -/
def releasedCount : Option FutexQueueSlot -> Nat
  | none => 0
  | some slot =>
    if slot.state = .released ∨ slot.state = .queued ∧ slot.life = .freed then 1 else 0

theorem wokenCount_some (slot : FutexQueueSlot) :
    wokenCount (some slot) = if slot.state = .woken then 1 else 0 := rfl

theorem releasedCount_some (slot : FutexQueueSlot) : releasedCount (some slot) =
    if slot.state = .released ∨ slot.state = .queued ∧ slot.life = .freed then 1 else 0 := rfl

structure Account (history : List Event) (table : Table) : Prop where
  woken : ∀ id, (consumedIn history).count id = wokenCount (table.slots id)
  released : ∀ id, (releasedIn history).count id = releasedCount (table.slots id)
  placed : ∀ id slot, table.slots id = some slot -> lastPlace history id = some slot.bucket

/-- An event that neither ends nor places a ticket. -/
def Event.Neutral : Event -> Prop
  | .woke _ _ _ => False
  | .released _ => False
  | .prepared _ _ => False
  | .moved _ _ _ _ => False
  | _ => True

/-- What the account reads of a slot. -/
def SamePlaces (table later : Table) : Prop :=
  ∀ id, (later.slots id).map FutexQueueSlot.place = (table.slots id).map FutexQueueSlot.place

theorem place_congr {slot other : FutexQueueSlot} (same : slot.place = other.place) :
    slot.state = other.state ∧ slot.queue = other.queue ∧ slot.bucket = other.bucket ∧
      slot.life = other.life := by
  unfold FutexQueueSlot.place at same
  simpa only [Prod.mk.injEq] using same

theorem counts_congr {first second : Option FutexQueueSlot}
    (same : first.map FutexQueueSlot.place = second.map FutexQueueSlot.place) :
    wokenCount first = wokenCount second ∧ releasedCount first = releasedCount second := by
  cases first with
  | none =>
    cases second with
    | none => exact ⟨rfl, rfl⟩
    | some slot => cases same
  | some slot =>
    cases second with
    | none => cases same
    | some other =>
      have fields := place_congr (Option.some.inj same)
      rw [wokenCount_some, wokenCount_some, releasedCount_some, releasedCount_some, fields.1,
        fields.2.2.2]
      exact ⟨rfl, rfl⟩

theorem Account.neutral {history : List Event} {table later : Table} {event : Event}
    (account : Account history table) (neutral : event.Neutral) (same : SamePlaces table later) :
    Account (event :: history) later := by
  have consumed : consumedIn (event :: history) = consumedIn history := by
    cases event <;> first | exact absurd neutral (fun no => no) | rfl
  have released : releasedIn (event :: history) = releasedIn history := by
    cases event <;> first | exact absurd neutral (fun no => no) | rfl
  have placed : ∀ id, lastPlace (event :: history) id = lastPlace history id := by
    intro id
    cases event <;> first | exact absurd neutral (fun no => no) | rfl
  refine ⟨?_, ?_, ?_⟩
  · intro id
    rw [consumed, account.woken, (counts_congr (same id)).1]
  · intro id
    rw [released, account.released, (counts_congr (same id)).2]
  intro id slot found
  have before := same id
  rw [found, Option.map_some, eq_comm, Option.map_eq_some_iff] at before
  rcases before with ⟨earlier, foundEarlier, fields⟩
  rw [placed, account.placed id earlier foundEarlier, (place_congr fields).2.2.1]

theorem samePlaces_setSlot {table : Table} {id : Nat} {slot after : FutexQueueSlot}
    (found : table.slots id = some slot) (same : after.place = slot.place) :
    SamePlaces table (table.setSlot id after) := by
  intro ticket
  by_cases self : ticket = id
  · subst self
    rw [setSlot_self, found, Option.map_some, Option.map_some, same]
  · rw [setSlot_other table after self]

end FutexTickets
end Carrick
