import Carrick.Foundation.Stages
import Carrick.Foundation.Word

namespace Carrick
namespace ForkQuiesce

open Foundation

/-!
# The fork barrier and its one-shot listeners

A forker takes the fork token, may raise and lower the quiesce flag while it has
it, and gives the token back.  Each raise or release stores its flag first and
publishes the event in a later step, which takes all listeners and then calls
them one by one.  A subscriber compares the generation and reads its flag under
the lock of the publication, in one step.

The listeners stand in the order of their ids, which is the order in which the
map of the source gives them out.  A counter that has run out is a fatal error:
the process ends there, and the step of the model does nothing.  The lock of the
parked threads, which `end_quiesce` takes between its two steps, guards no data
of this model.
-/

universe u

inductive QuiesceEventKind where
  | raised
  | released
deriving DecidableEq, Repr

structure QuiesceEvent where
  generation : Nat
  kind : QuiesceEventKind
deriving DecidableEq, Repr

/-- The flag that a listener waits for: the end of the quiescence, or the
release after the fork. -/
inductive Awaited where
  | quiesce
  | forkRelease
deriving DecidableEq, Repr

structure QuiesceListener (Callback : Type u) where
  expectedGeneration : Nat
  callback : Callback
  /-- Which of the two subscriptions made it. -/
  awaited : Awaited

structure QuiesceBarrier (Callback : Type u) where
  quiescing : Bool
  forking : Bool
  generation : Nat
  kind : QuiesceEventKind
  listeners : List (Nat × QuiesceListener Callback)
  nextListener : Nat

inductive QuiesceEnrollment where
  | ready (event : QuiesceEvent)
  | subscribed (id : Nat)
  | fatal
deriving DecidableEq, Repr

variable {Callback : Type u}

namespace QuiesceBarrier

def new : QuiesceBarrier Callback where
  quiescing := false
  forking := false
  generation := 0
  kind := .released
  listeners := []
  nextListener := 1

def flag (barrier : QuiesceBarrier Callback) : Awaited -> Bool
  | .quiesce => barrier.quiescing
  | .forkRelease => barrier.forking

/-- The barrier with one more listener. -/
def enter (barrier : QuiesceBarrier Callback) (listener : QuiesceListener Callback) :
    QuiesceBarrier Callback :=
  { barrier with
    nextListener := barrier.nextListener + 1
    listeners := barrier.listeners ++ [(barrier.nextListener, listener)] }

/-- The two subscriptions differ in the flag they read. -/
def subscribe (barrier : QuiesceBarrier Callback) (awaited : Awaited) (expected : Nat)
    (callback : Callback) : QuiesceEnrollment × QuiesceBarrier Callback :=
  if barrier.generation ≠ expected then (.ready ⟨barrier.generation, barrier.kind⟩, barrier)
  else if barrier.flag awaited = false then (.ready ⟨barrier.generation, .released⟩, barrier)
  else
    let id := barrier.nextListener
    if id = 0 ∨ id = wordLimit - 1 then (.fatal, barrier)
    else (.subscribed id, barrier.enter ⟨expected, callback, awaited⟩)

def subscribeQuiesce (barrier : QuiesceBarrier Callback) (expected : Nat) (callback : Callback) :
    QuiesceEnrollment × QuiesceBarrier Callback :=
  barrier.subscribe .quiesce expected callback

def subscribeForkRelease (barrier : QuiesceBarrier Callback) (expected : Nat)
    (callback : Callback) : QuiesceEnrollment × QuiesceBarrier Callback :=
  barrier.subscribe .forkRelease expected callback

/-- A progress subscription takes its id from the same counter. -/
def skipListener (barrier : QuiesceBarrier Callback) : QuiesceBarrier Callback :=
  if barrier.nextListener = 0 ∨ barrier.nextListener = wordLimit - 1 then barrier
  else { barrier with nextListener := barrier.nextListener + 1 }

/-- Dropping a subscription takes its listener out if it is still there. -/
def drop (barrier : QuiesceBarrier Callback) (id expected : Nat) : QuiesceBarrier Callback :=
  { barrier with
    listeners := barrier.listeners.filter
      (fun listener => !(listener.1 == id && listener.2.expectedGeneration == expected)) }

/-- The locked part of `publish_quiesce_event`. -/
def publish (barrier : QuiesceBarrier Callback) (kind : QuiesceEventKind) :
    QuiesceBarrier Callback :=
  { barrier with generation := barrier.generation + 1, kind, listeners := [] }

end QuiesceBarrier

/-! ## Forkers and runs -/

/-- Where a forker stands.  The stages with a flag stored and the event not yet
published come between the two halves of a call. -/
inductive Stage where
  | outside
  | holding
  | raising
  | raised
  | lowering
  | ending
deriving DecidableEq, Repr

/-- The stage between the store that lowers a flag and its publication. -/
def Awaited.releasing : Awaited -> Stage
  | .quiesce => .lowering
  | .forkRelease => .ending

/-- A callback that was taken from the barrier and has not been called.  The
forker that took it calls it after it has left the lock. -/
structure PendingCall (Callback : Type u) where
  id : Nat
  callback : Callback
  event : QuiesceEvent

structure Forker (Callback : Type u) where
  stage : Stage
  calls : List (PendingCall Callback)

structure World (Callback : Type u) where
  barrier : QuiesceBarrier Callback
  forkers : Nat -> Forker Callback

inductive BarrierEvent (Callback : Type u) where
  | tryBeginFork (forker : Nat)
  | setQuiescing (forker : Nat)
  | endQuiesce (forker : Nat)
  | endFork (forker : Nat)
  | publish (forker : Nat)
  | call (forker : Nat)
  | subscribe (awaited : Awaited) (expected : Nat) (callback : Callback)
  | drop (id expected : Nat)
  | subscribeProgress

/-- The event that a stage has to publish and the stage after it. -/
def Stage.publication : Stage -> Option (QuiesceEventKind × Stage)
  | .raising => some (.raised, .raised)
  | .lowering => some (.released, .holding)
  | .ending => some (.released, .outside)
  | _ => none

namespace World

def new : World Callback where
  barrier := .new
  forkers := fun _ => ⟨.outside, []⟩

def setForker (world : World Callback) (forker : Nat) (state : Forker Callback) :
    World Callback :=
  { world with forkers := fun other => if other = forker then state else world.forkers other }

/-- The forker is at a stage and has called back everything it took. -/
def At (world : World Callback) (forker : Nat) (stage : Stage) : Prop :=
  (world.forkers forker).stage = stage ∧ (world.forkers forker).calls = []

/-- A flag is stored and the forker goes on to another stage. -/
def store (world : World Callback) (forker : Nat) (barrier : QuiesceBarrier Callback)
    (stage : Stage) : World Callback :=
  { world with barrier }.setForker forker ⟨stage, []⟩

end World

instance (world : World Callback) (forker : Nat) (stage : Stage) :
    Decidable (world.At forker stage) :=
  decidable_of_iff ((world.forkers forker).stage = stage ∧
    (world.forkers forker).calls.isEmpty = true)
    (and_congr_right fun _ => List.isEmpty_iff)

/-- The callbacks of a publication, with the event they are called with. -/
def taken (barrier : QuiesceBarrier Callback) (kind : QuiesceEventKind) :
    List (PendingCall Callback) :=
  barrier.listeners.map
    (fun listener => ⟨listener.1, listener.2.callback, ⟨barrier.generation + 1, kind⟩⟩)

namespace BarrierEvent

def run (world : World Callback) : BarrierEvent Callback -> World Callback
  | tryBeginFork forker =>
    if world.At forker .outside ∧ world.barrier.forking = false then
      world.store forker { world.barrier with forking := true } .holding
    else world
  | setQuiescing forker =>
    if world.At forker .holding then
      world.store forker { world.barrier with quiescing := true } .raising
    else world
  | endQuiesce forker =>
    if world.At forker .raised then
      world.store forker { world.barrier with quiescing := false } .lowering
    else world
  | endFork forker =>
    if world.At forker .holding then
      world.store forker { world.barrier with forking := false } .ending
    else world
  | publish forker =>
    match (world.forkers forker).stage.publication with
    | some (kind, next) =>
      if world.barrier.generation + 1 < wordLimit then
        { world with barrier := world.barrier.publish kind }.setForker forker
          ⟨next, taken world.barrier kind⟩
      else world
    | none => world
  | call forker =>
    world.setForker forker
      ⟨(world.forkers forker).stage, (world.forkers forker).calls.tail⟩
  | subscribe .quiesce expected callback =>
    { world with barrier := (world.barrier.subscribeQuiesce expected callback).2 }
  | subscribe .forkRelease expected callback =>
    { world with barrier := (world.barrier.subscribeForkRelease expected callback).2 }
  | drop id expected => { world with barrier := world.barrier.drop id expected }
  | subscribeProgress => { world with barrier := world.barrier.skipListener }

theorem run_subscribe (world : World Callback) (awaited : Awaited) (expected : Nat)
    (callback : Callback) : run world (.subscribe awaited expected callback) =
      { world with barrier := (world.barrier.subscribe awaited expected callback).2 } := by
  cases awaited with
  | quiesce => rfl
  | forkRelease => rfl

end BarrierEvent

/-- The world before the event at position `n`. -/
def worldAt (events : List (BarrierEvent Callback)) (n : Nat) : World Callback :=
  stage BarrierEvent.run .new events n

/-! ## What an event can do -/

/-- The forker has an event to publish and the generation has room for it. -/
def Publishes (world : World Callback) (forker : Nat) : Prop :=
  (world.forkers forker).stage.publication ≠ none ∧ world.barrier.generation + 1 < wordLimit

theorem QuiesceBarrier.subscribe_cases (barrier : QuiesceBarrier Callback) (awaited : Awaited)
    (expected : Nat) (callback : Callback) :
    ((∀ id, (barrier.subscribe awaited expected callback).1 ≠ .subscribed id) ∧
      (barrier.subscribe awaited expected callback).2 = barrier) ∨
    (barrier.subscribe awaited expected callback =
        (.subscribed barrier.nextListener, barrier.enter ⟨expected, callback, awaited⟩) ∧
      barrier.flag awaited = true) := by
  unfold subscribe
  by_cases stale : barrier.generation ≠ expected
  · rw [if_pos stale]
    exact .inl ⟨(by intro id wrong; cases wrong), rfl⟩
  rw [if_neg stale]
  cases flag : barrier.flag awaited with
  | false =>
    rw [if_pos rfl]
    exact .inl ⟨(by intro id wrong; cases wrong), rfl⟩
  | true =>
    rw [if_neg (by intro wrong; cases wrong)]
    dsimp only
    split_ifs
    · exact .inl ⟨(by intro id wrong; cases wrong), rfl⟩
    · exact .inr ⟨rfl, rfl⟩

/-- What one event makes of a world. -/
inductive Outcome (world : World Callback) : BarrierEvent Callback -> World Callback -> Prop where
  | idle {event : BarrierEvent Callback}
      (unpublished : ∀ forker, event = .publish forker -> ¬ Publishes world forker)
      (unentered : ∀ awaited expected callback, event = .subscribe awaited expected callback ->
        ∀ id, (world.barrier.subscribe awaited expected callback).1 ≠ .subscribed id) :
      Outcome world event world
  | stored {event : BarrierEvent Callback} {forker : Nat} {stage : Stage} (quiescing forking : Bool)
      (free : (world.forkers forker).calls = [])
      (before : ∀ awaited : Awaited, (world.forkers forker).stage ≠ awaited.releasing)
      (flags : ∀ awaited, world.barrier.flag awaited = true ->
        { world.barrier with quiescing, forking }.flag awaited = true ∨ stage = awaited.releasing)
      (unpublished : ∀ other, event ≠ .publish other)
      (unentered : ∀ awaited expected callback, event ≠ .subscribe awaited expected callback) :
      Outcome world event (world.store forker { world.barrier with quiescing, forking } stage)
  | published {forker : Nat} {kind : QuiesceEventKind} {next : Stage}
      (publishes : Publishes world forker) (done : next.publication = none) :
      Outcome world (.publish forker)
        ({ world with barrier := world.barrier.publish kind }.setForker forker
          ⟨next, taken world.barrier kind⟩)
  | called (forker : Nat) :
      Outcome world (.call forker) (world.setForker forker
        ⟨(world.forkers forker).stage, (world.forkers forker).calls.tail⟩)
  | entered {awaited : Awaited} {expected : Nat} {callback : Callback}
      (flag : world.barrier.flag awaited = true)
      (subscribed : (world.barrier.subscribe awaited expected callback).1 =
        .subscribed world.barrier.nextListener) :
      Outcome world (.subscribe awaited expected callback)
        { world with barrier := world.barrier.enter ⟨expected, callback, awaited⟩ }
  | dropped (id expected : Nat) :
      Outcome world (.drop id expected) { world with barrier := world.barrier.drop id expected }
  | skipped : Outcome world .subscribeProgress
      { world with
        barrier := { world.barrier with nextListener := world.barrier.nextListener + 1 } }

theorem run_outcome (world : World Callback) (event : BarrierEvent Callback) :
    Outcome world event (event.run world) := by
  have idle : ∀ {event : BarrierEvent Callback}, (∀ forker, event ≠ .publish forker) ->
      (∀ awaited expected callback, event ≠ .subscribe awaited expected callback) ->
      Outcome world event world := fun unpublished unentered =>
    .idle (fun forker same => absurd same (unpublished forker))
      (fun awaited expected callback same => absurd same (unentered awaited expected callback))
  have notReleasing : ∀ {forker : Nat} {here : Stage}, world.At forker here ->
      here.publication = none -> ∀ awaited : Awaited,
      (world.forkers forker).stage ≠ awaited.releasing := by
    intro forker here position unpublished awaited same
    rw [position.1] at same
    rw [same] at unpublished
    cases awaited <;> cases unpublished
  cases event with
  | tryBeginFork forker =>
    rw [BarrierEvent.run]
    split_ifs with allowed
    · refine .stored _ _ allowed.1.2 (notReleasing allowed.1 rfl) ?_ nofun nofun
      intro awaited high
      cases awaited with
      | quiesce => exact .inl high
      | forkRelease => exact .inl rfl
    · exact idle nofun nofun
  | setQuiescing forker =>
    rw [BarrierEvent.run]
    split_ifs with allowed
    · refine .stored _ _ allowed.2 (notReleasing allowed rfl) ?_ nofun nofun
      intro awaited high
      cases awaited with
      | quiesce => exact .inl rfl
      | forkRelease => exact .inl high
    · exact idle nofun nofun
  | endQuiesce forker =>
    rw [BarrierEvent.run]
    split_ifs with allowed
    · refine .stored _ _ allowed.2 (notReleasing allowed rfl) ?_ nofun nofun
      intro awaited high
      cases awaited with
      | quiesce => exact .inr rfl
      | forkRelease => exact .inl high
    · exact idle nofun nofun
  | endFork forker =>
    rw [BarrierEvent.run]
    split_ifs with allowed
    · refine .stored _ _ allowed.2 (notReleasing allowed rfl) ?_ nofun nofun
      intro awaited high
      cases awaited with
      | quiesce => exact .inl high
      | forkRelease => exact .inr rfl
    · exact idle nofun nofun
  | publish forker =>
    rw [BarrierEvent.run]
    cases due : (world.forkers forker).stage.publication with
    | none =>
      refine .idle ?_ nofun
      intro other same publishes
      cases same
      exact publishes.1 due
    | some publication =>
      dsimp only
      split_ifs with room
      · refine .published ⟨?_, room⟩ ?_
        · rw [due]
          nofun
        · cases reached : (world.forkers forker).stage <;> rw [reached] at due <;> cases due <;> rfl
      · refine .idle ?_ nofun
        intro other same publishes
        cases same
        exact room publishes.2
  | call forker => exact .called forker
  | subscribe awaited expected callback =>
    rw [BarrierEvent.run_subscribe]
    rcases world.barrier.subscribe_cases awaited expected callback with
      ⟨refused, same⟩ | ⟨enters, flag⟩
    · rw [same]
      refine .idle nofun ?_
      intro awaited expected callback same
      cases same
      exact refused
    · rw [enters]
      exact .entered flag (by rw [enters])
  | drop id expected => exact .dropped id expected
  | subscribeProgress =>
    rw [BarrierEvent.run, QuiesceBarrier.skipListener]
    split_ifs
    · exact idle nofun nofun
    · exact .skipped

section Occurrences

variable (events : List (BarrierEvent Callback))

/-- The subscription at position `n` enters a listener. -/
def SubscribedAt (n id : Nat) (callback : Callback) : Prop :=
  ∃ awaited expected, events[n]? = some (.subscribe awaited expected callback) ∧
    ((worldAt events n).barrier.subscribe awaited expected callback).1 = .subscribed id

/-- The forker publishes at position `n`. -/
def PublishedAt (n forker : Nat) : Prop :=
  events[n]? = some (.publish forker) ∧ Publishes (worldAt events n) forker

/-- The forker calls a callback at position `n`. -/
def CalledAt (n forker : Nat) (call : PendingCall Callback) : Prop :=
  events[n]? = some (.call forker) ∧
    ((worldAt events n).forkers forker).calls.head? = some call

/-- No listener of the run is stranded. -/
structure NeverStranded : Prop where
  /-- While a listener is entered its flag is high, or was lowered by a forker
  that has still to publish the release. -/
  awaited : ∀ (n id : Nat) (listener : QuiesceListener Callback),
    (id, listener) ∈ (worldAt events n).barrier.listeners ->
    (worldAt events n).barrier.flag listener.awaited = true ∨
      ∃ forker, ((worldAt events n).forkers forker).stage = listener.awaited.releasing
  /-- The first publication after the subscription takes the listener, and by the
  time that forker is done calling back it has been called. -/
  called : ∀ (s p n id forker : Nat) (callback : Callback),
    SubscribedAt events s id callback -> s < p -> PublishedAt events p forker ->
    (∀ k other, s < k -> k < p -> ¬ PublishedAt events k other) ->
    (∀ k expected, s < k -> k < p -> events[k]? ≠ some (.drop id expected)) -> p < n ->
    ((worldAt events n).forkers forker).calls = [] ->
    ∃ i call, p < i ∧ i < n ∧ CalledAt events i forker call ∧ call.id = id ∧
      call.callback = callback ∧ call.event.generation = (worldAt events (p + 1)).barrier.generation
  /-- No listener is called twice. -/
  once : ∀ (i j forker other : Nat) (call again : PendingCall Callback),
    CalledAt events i forker call -> CalledAt events j other again -> call.id = again.id -> i = j
  /-- What is called was entered by a subscription, and no publication came before
  the one that took it. -/
  first : ∀ (i id forker : Nat) (call : PendingCall Callback),
    CalledAt events i forker call -> call.id = id ->
    ∃ s p, s < p ∧ p < i ∧ SubscribedAt events s id call.callback ∧ PublishedAt events p forker ∧
      ∀ k other, s < k -> k < p -> ¬ PublishedAt events k other

end Occurrences

/-! ## Invariants -/

/-- The ids of the listeners, or of the callbacks that a forker has taken. -/
def World.place (world : World Callback) : Option Nat -> List Nat
  | none => world.barrier.listeners.map Prod.fst
  | some forker => (world.forkers forker).calls.map PendingCall.id

/-- An id stands at one place and once: in the barrier, or with the one forker
that is to call it back. -/
structure Unique (world : World Callback) : Prop where
  nodup : ∀ place, (world.place place).Nodup
  below : ∀ place id, id ∈ world.place place -> id < world.barrier.nextListener
  apart : ∀ place other id, id ∈ world.place place -> id ∈ world.place other -> place = other

@[simp]
theorem setForker_self (world : World Callback) (forker : Nat) (state : Forker Callback) :
    (world.setForker forker state).forkers forker = state :=
  if_pos rfl

theorem setForker_other (world : World Callback) {forker other : Nat} (state : Forker Callback)
    (apart : other ≠ forker) :
    (world.setForker forker state).forkers other = world.forkers other :=
  if_neg apart

/-- Every place keeps what stood there, or takes over what stood at one other. -/
structure Moves (world later : World Callback) (origin : Option Nat -> Option Nat) : Prop where
  kept : ∀ place, (later.place place).Sublist (world.place (origin place))
  injective : ∀ place other, later.place place ≠ [] -> later.place other ≠ [] ->
    origin place = origin other -> place = other
  next : world.barrier.nextListener <= later.barrier.nextListener

variable {world later : World Callback}

theorem Moves.of_forker {forker : Nat}
    (listeners : later.barrier.listeners = world.barrier.listeners)
    (next : later.barrier.nextListener = world.barrier.nextListener)
    (own : (later.forkers forker).calls.Sublist (world.forkers forker).calls)
    (others : ∀ other, other ≠ forker -> later.forkers other = world.forkers other) :
    Moves world later (fun place => place) where
  kept := by
    intro place
    cases place with
    | none =>
      rw [World.place, listeners]
      exact List.Sublist.refl _
    | some other =>
      by_cases same : other = forker
      · rw [same]
        exact own.map _
      · rw [World.place, others other same]
        exact List.Sublist.refl _
  injective := fun _ _ _ _ same => same
  next := Nat.le_of_eq next.symm

variable {event : BarrierEvent Callback}

/-- What an event makes of the ids: it moves them or gives out the next one. -/
theorem Outcome.places (outcome : Outcome world event later) :
    (∃ origin, Moves world later origin) ∨
      (later.place none = world.place none ++ [world.barrier.nextListener] ∧
        (∀ forker, later.place (some forker) = world.place (some forker)) ∧
        later.barrier.nextListener = world.barrier.nextListener + 1) := by
  cases outcome with
  | idle =>
    exact .inl ⟨fun place => place, fun _ => List.Sublist.refl _, fun _ _ _ _ same => same,
      le_rfl⟩
  | @stored _ forker stage _ _ _ _ _ _ _ =>
    refine .inl ⟨_, Moves.of_forker rfl rfl ?_ (fun _ apart => setForker_other _ _ apart)⟩
    rw [World.store, setForker_self]
    exact List.nil_sublist _
  | @published forker kind next _ _ =>
    refine .inl ⟨fun place => if place = some forker then none else place, ?_, ?_, le_rfl⟩
    · intro place
      cases place with
      | none => exact List.nil_sublist _
      | some other =>
        show ((_ : Forker Callback).calls.map PendingCall.id).Sublist _
        by_cases same : other = forker
        · rw [same, if_pos rfl, setForker_self, taken, List.map_map]
          exact List.Sublist.refl _
        · rw [if_neg (fun equal => same (Option.some.inj equal)), setForker_other _ _ same]
          exact List.Sublist.refl _
    intro place other nonempty otherNonempty same
    have notNone : place ≠ none := fun equal => by
      rw [equal] at nonempty
      exact nonempty rfl
    have otherNotNone : other ≠ none := fun equal => by
      rw [equal] at otherNonempty
      exact otherNonempty rfl
    split_ifs at same with first second second
    · rw [first, second]
    · exact absurd same.symm otherNotNone
    · exact absurd same notNone
    · exact same
  | called forker =>
    refine .inl ⟨_, Moves.of_forker rfl rfl ?_ (fun _ apart => setForker_other _ _ apart)⟩
    rw [setForker_self]
    exact List.tail_sublist _
  | entered _ _ => exact .inr ⟨List.map_append, fun _ => rfl, rfl⟩
  | dropped id expected =>
    refine .inl ⟨fun place => place, ?_, fun _ _ _ _ same => same, le_rfl⟩
    intro place
    cases place with
    | none => exact List.filter_sublist.map _
    | some other => exact List.Sublist.refl _
  | skipped =>
    exact .inl ⟨fun place => place, fun _ => List.Sublist.refl _, fun _ _ _ _ same => same,
      Nat.le_succ _⟩

/-- What stands at a place after an event stood at some place before, or is new. -/
theorem Outcome.stood (outcome : Outcome world event later) {place : Option Nat} {id : Nat}
    (member : id ∈ later.place place) :
    (∃ origin, id ∈ world.place origin) ∨ id = world.barrier.nextListener := by
  rcases outcome.places with ⟨origin, moves⟩ | ⟨listeners, others, _⟩
  · exact .inl ⟨origin place, (moves.kept place).subset member⟩
  cases place with
  | some forker =>
    rw [others] at member
    exact .inl ⟨some forker, member⟩
  | none =>
    rw [listeners] at member
    rcases List.mem_append.mp member with before | new
    · exact .inl ⟨none, before⟩
    · exact .inr (List.mem_singleton.mp new)

theorem Unique.moved (unique : Unique world) {origin : Option Nat -> Option Nat}
    (moves : Moves world later origin) : Unique later where
  nodup := fun place => (unique.nodup _).sublist (moves.kept place)
  below := fun place id member =>
    Nat.lt_of_lt_of_le (unique.below _ id ((moves.kept place).subset member)) moves.next
  apart := by
    intro place other id here there
    exact moves.injective place other (List.ne_nil_of_mem here) (List.ne_nil_of_mem there)
      (unique.apart _ _ id ((moves.kept place).subset here) ((moves.kept other).subset there))

theorem Unique.next (unique : Unique world) (outcome : Outcome world event later) :
    Unique later := by
  rcases outcome.places with ⟨origin, moves⟩ | ⟨listeners, others, counter⟩
  · exact unique.moved moves
  have grown : ∀ place id, id ∈ later.place place ->
      id ∈ world.place place ∨ (place = none ∧ id = world.barrier.nextListener) := by
    intro place id member
    cases place with
    | some forker => exact .inl (others forker ▸ member)
    | none =>
      rw [listeners] at member
      rcases List.mem_append.mp member with before | new
      · exact .inl before
      · exact .inr ⟨rfl, List.mem_singleton.mp new⟩
  constructor
  · intro place
    cases place with
    | some forker =>
      rw [others]
      exact unique.nodup (some forker)
    | none =>
      rw [listeners]
      refine List.nodup_append.mpr ⟨unique.nodup none, List.pairwise_singleton _ _, ?_⟩
      intro id member new isNew same
      have bound := unique.below none id member
      rw [same, List.mem_singleton.mp isNew] at bound
      exact Nat.lt_irrefl _ bound
  · intro place id member
    rw [counter]
    rcases grown place id member with before | ⟨_, new⟩
    · exact Nat.lt_succ_of_lt (unique.below place id before)
    · rw [new]
      exact Nat.lt_succ_self _
  intro place other id here there
  rcases grown place id here with before | ⟨first, new⟩
  · rcases grown other id there with otherBefore | ⟨_, new⟩
    · exact unique.apart place other id before otherBefore
    · exact absurd (unique.below place id before) (by omega)
  · rcases grown other id there with otherBefore | ⟨second, _⟩
    · exact absurd (unique.below other id otherBefore) (by omega)
    · rw [first, second]

/-- A forker with an event to publish has nothing left to call, and a listener
waits for a flag that is high or whose release is to be published. -/
structure Sound (world : World Callback) : Prop where
  free : ∀ forker, (world.forkers forker).stage.publication ≠ none ->
    (world.forkers forker).calls = []
  awaited : ∀ id listener, (id, listener) ∈ world.barrier.listeners ->
    world.barrier.flag listener.awaited = true ∨
      ∃ forker, (world.forkers forker).stage = listener.awaited.releasing

theorem Sound.next (sound : Sound world) (outcome : Outcome world event later) : Sound later := by
  cases outcome with
  | idle => exact sound
  | @stored _ forker stage quiescing forking free before flags _ _ =>
    constructor
    · intro other due
      by_cases same : other = forker
      · rw [same, World.store, setForker_self]
      · rw [World.store, setForker_other _ _ same] at due ⊢
        exact sound.free other due
    intro id listener member
    rcases sound.awaited id listener member with high | ⟨other, releasing⟩
    · rcases flags listener.awaited high with still | lowered
      · exact .inl still
      · refine .inr ⟨forker, ?_⟩
        rw [World.store, setForker_self]
        exact lowered
    · have apart : other ≠ forker := fun same => before listener.awaited (same ▸ releasing)
      refine .inr ⟨other, ?_⟩
      rw [World.store, setForker_other _ _ apart]
      exact releasing
  | @published forker kind next _ done =>
    constructor
    · intro other due
      by_cases same : other = forker
      · rw [same, setForker_self] at due
        exact absurd done due
      · rw [setForker_other _ _ same] at due ⊢
        exact sound.free other due
    · intro id listener member
      cases member
  | called forker =>
    constructor
    · intro other due
      by_cases same : other = forker
      · rw [same, setForker_self] at due ⊢
        show (world.forkers forker).calls.tail = []
        rw [sound.free forker due]
        rfl
      · rw [setForker_other _ _ same] at due ⊢
        exact sound.free other due
    intro id listener member
    rcases sound.awaited id listener member with high | ⟨other, releasing⟩
    · exact .inl high
    refine .inr ⟨other, ?_⟩
    by_cases same : other = forker
    · rw [same, setForker_self]
      exact same ▸ releasing
    · rw [setForker_other _ _ same]
      exact releasing
  | entered flag _ =>
    refine ⟨sound.free, ?_⟩
    intro id listener member
    rcases List.mem_append.mp member with before | new
    · exact sound.awaited id listener before
    · cases List.mem_singleton.mp new
      exact .inl flag
  | dropped id expected =>
    exact ⟨sound.free, fun other listener member =>
      sound.awaited other listener (List.mem_filter.mp member).1⟩
  | skipped => exact ⟨sound.free, sound.awaited⟩

theorem new_unique : Unique (World.new : World Callback) := by
  have bare : ∀ place, (World.new : World Callback).place place = [] := by
    intro place
    cases place <;> rfl
  constructor
  · intro place
    rw [bare]
    exact List.nodup_nil
  · intro place id member
    rw [bare] at member
    cases member
  · intro place other id member
    rw [bare] at member
    cases member

theorem new_sound : Sound (World.new : World Callback) :=
  ⟨fun _ _ => rfl, nofun⟩

/-! ## Runs -/

section Runs

variable {events : List (BarrierEvent Callback)} {n m id forker : Nat}

theorem worldAt_unique (n : Nat) : Unique (worldAt events n) :=
  stage_invariant Unique new_unique (fun world event _ unique =>
    unique.next (run_outcome world event)) n

theorem worldAt_sound (n : Nat) : Sound (worldAt events n) :=
  stage_invariant Sound new_sound (fun world event _ sound =>
    sound.next (run_outcome world event)) n

theorem worldAt_next (present : events[n]? = some event) :
    Outcome (worldAt events n) event (worldAt events (n + 1)) := by
  rw [worldAt, worldAt, stage_next present]
  exact run_outcome _ _

/-- An id that was given out and stands at no place. -/
def Gone (id : Nat) (world : World Callback) : Prop :=
  id < world.barrier.nextListener ∧ ∀ place, id ∉ world.place place

theorem Gone.next (gone : Gone id world) (outcome : Outcome world event later) : Gone id later := by
  refine ⟨?_, ?_⟩
  · rcases outcome.places with ⟨origin, moves⟩ | ⟨_, _, counter⟩
    · exact Nat.lt_of_lt_of_le gone.1 moves.next
    · rw [counter]
      exact Nat.lt_succ_of_lt gone.1
  · intro place member
    rcases outcome.stood member with ⟨origin, before⟩ | new
    · exact gone.2 origin before
    · exact absurd gone.1 (by omega)

variable {call : PendingCall Callback}

theorem CalledAt.gone (called : CalledAt events n forker call) (later : n < m) :
    Gone call.id (worldAt events m) := by
  refine stage_keeps (Gone call.id) (fun world event _ gone => gone.next (run_outcome world event))
    later ?_
  have unique : Unique (worldAt events n) := worldAt_unique n
  rcases called with ⟨event, head⟩
  have listed : (worldAt events n).place (some forker) =
      call.id :: ((worldAt events n).forkers forker).calls.tail.map PendingCall.id := by
    rcases List.head?_eq_some_iff.mp head with ⟨rest, whole⟩
    rw [World.place, whole, List.map_cons, List.tail_cons]
  have here : call.id ∈ (worldAt events n).place (some forker) := by
    rw [listed]
    exact List.mem_cons_self
  have after : worldAt events (n + 1) = (worldAt events n).setForker forker
      ⟨((worldAt events n).forkers forker).stage, ((worldAt events n).forkers forker).calls.tail⟩ := by
    rw [worldAt, stage_next event]
    rfl
  show Gone call.id (worldAt events (n + 1))
  rw [after]
  refine ⟨unique.below _ _ here, ?_⟩
  intro place member
  have moved : call.id ∈ (worldAt events n).place place -> place = some forker :=
    fun before => unique.apart place (some forker) call.id before here
  cases place with
  | none => cases moved member
  | some other =>
    by_cases same : other = forker
    · rw [same, World.place, setForker_self] at member
      have nodup := unique.nodup (some forker)
      rw [listed] at nodup
      exact (List.nodup_cons.mp nodup).1 member
    · rw [World.place, setForker_other _ _ same] at member
      exact same (Option.some.inj (moved member))

theorem called_once {i j other : Nat} {again : PendingCall Callback}
    (first : CalledAt events i forker call) (second : CalledAt events j other again)
    (same : call.id = again.id) : i = j := by
  have member : ∀ {n forker : Nat} {call : PendingCall Callback}, CalledAt events n forker call ->
      call.id ∈ (worldAt events n).place (some forker) :=
    fun called => List.mem_map.mpr ⟨_, List.mem_of_mem_head? called.2, rfl⟩
  rcases Nat.lt_trichotomy i j with before | equal | after
  · exact absurd (same ▸ member second) ((first.gone before).2 _)
  · exact equal
  · exact absurd (same ▸ member first) ((second.gone after).2 _)

theorem Outcome.calls (outcome : Outcome world event later) (sound : Sound world)
    (member : call ∈ (world.forkers forker).calls) :
    call ∈ (later.forkers forker).calls ∨
      (event = .call forker ∧ (world.forkers forker).calls.head? = some call) := by
  have busy : (world.forkers forker).calls ≠ [] := List.ne_nil_of_mem member
  cases outcome with
  | idle => exact .inl member
  | @stored _ other stage _ _ free _ _ _ _ =>
    have apart : forker ≠ other := fun same => busy (same ▸ free)
    rw [World.store, setForker_other _ _ apart]
    exact .inl member
  | @published other kind next publishes _ =>
    have apart : forker ≠ other := fun same => busy (sound.free forker (same ▸ publishes.1))
    rw [setForker_other _ _ apart]
    exact .inl member
  | called other =>
    by_cases same : forker = other
    · rw [<- same, setForker_self]
      cases whole : (world.forkers forker).calls with
      | nil => exact absurd whole busy
      | cons head rest =>
        rw [whole] at member
        rcases List.mem_cons.mp member with here | there
        · exact .inr ⟨rfl, congrArg some here.symm⟩
        · exact .inl there
    · rw [setForker_other _ _ same]
      exact .inl member
  | entered _ _ => exact .inl member
  | dropped _ _ => exact .inl member
  | skipped => exact .inl member

variable {listener : QuiesceListener Callback}

/-- A listener stays until an event is published or its subscription is dropped. -/
theorem Outcome.listens (outcome : Outcome world event later)
    (unpublished : ∀ other, event = .publish other -> ¬ Publishes world other)
    (undropped : ∀ expected, event ≠ .drop id expected)
    (member : (id, listener) ∈ world.barrier.listeners) :
    (id, listener) ∈ later.barrier.listeners := by
  cases outcome with
  | idle => exact member
  | stored => exact member
  | published publishes _ => exact absurd publishes (unpublished _ rfl)
  | called => exact member
  | entered _ _ => exact List.mem_append_left _ member
  | dropped other expected =>
    refine List.mem_filter.mpr ⟨member, ?_⟩
    have apart : id ≠ other := fun same => undropped expected (same ▸ rfl)
    simp [apart]
  | skipped => exact member

/-- A listener after an event was there before, and none was published, or has
just been entered. -/
theorem Outcome.listened (outcome : Outcome world event later)
    (member : (id, listener) ∈ later.barrier.listeners) :
    ((id, listener) ∈ world.barrier.listeners ∧
        ∀ other, event = .publish other -> ¬ Publishes world other) ∨
      ∃ awaited expected, event = .subscribe awaited expected listener.callback ∧
        (world.barrier.subscribe awaited expected listener.callback).1 = .subscribed id := by
  cases outcome with
  | idle unpublished _ => exact .inl ⟨member, unpublished⟩
  | stored _ _ _ _ _ unpublished _ =>
    exact .inl ⟨member, fun other same => absurd same (unpublished other)⟩
  | published _ _ => cases member
  | called => exact .inl ⟨member, nofun⟩
  | entered _ subscribed =>
    rcases List.mem_append.mp member with before | new
    · exact .inl ⟨before, nofun⟩
    · cases List.mem_singleton.mp new
      exact .inr ⟨_, _, rfl, subscribed⟩
  | dropped _ _ => exact .inl ⟨(List.mem_filter.mp member).1, nofun⟩
  | skipped => exact .inl ⟨member, nofun⟩

/-- A callback that a forker has after an event it had before, or has just taken. -/
theorem Outcome.took (outcome : Outcome world event later)
    (member : call ∈ (later.forkers forker).calls) :
    call ∈ (world.forkers forker).calls ∨
      (event = .publish forker ∧ Publishes world forker ∧
        ∃ listener, (call.id, listener) ∈ world.barrier.listeners ∧
          listener.callback = call.callback) := by
  cases outcome with
  | idle => exact .inl member
  | @stored _ other _ _ _ _ _ _ _ _ =>
    by_cases same : forker = other
    · rw [same, World.store, setForker_self] at member
      cases member
    · rw [World.store, setForker_other _ _ same] at member
      exact .inl member
  | @published other kind next publishes _ =>
    by_cases same : forker = other
    · rw [same, setForker_self] at member
      rcases List.mem_map.mp member with ⟨listener, listed, equal⟩
      rw [same, <- equal]
      exact .inr ⟨rfl, publishes, listener.2, listed, rfl⟩
    · rw [setForker_other _ _ same] at member
      exact .inl member
  | called other =>
    by_cases same : forker = other
    · rw [same, setForker_self] at member
      exact .inl (same ▸ List.mem_of_mem_tail member)
    · rw [setForker_other _ _ same] at member
      exact .inl member
  | entered _ _ => exact .inl member
  | dropped _ _ => exact .inl member
  | skipped => exact .inl member

theorem Outcome.takes (outcome : Outcome world (.publish forker) later)
    (publishes : Publishes world forker) (member : (id, listener) ∈ world.barrier.listeners) :
    ∃ call ∈ (later.forkers forker).calls, call.id = id ∧
      call.callback = listener.callback ∧ call.event.generation = later.barrier.generation := by
  cases outcome with
  | idle unpublished _ => exact absurd publishes (unpublished forker rfl)
  | stored _ _ _ _ _ unpublished _ => exact absurd rfl (unpublished forker)
  | published _ _ =>
    rw [setForker_self]
    exact ⟨_, List.mem_map.mpr ⟨_, member, rfl⟩, rfl, rfl, rfl⟩

theorem SubscribedAt.listens {callback : Callback} (subscribed : SubscribedAt events n id callback) :
    ∃ listener, (id, listener) ∈ (worldAt events (n + 1)).barrier.listeners ∧
      listener.callback = callback := by
  rcases subscribed with ⟨awaited, expected, event, entered⟩
  rw [worldAt, stage_next event, BarrierEvent.run_subscribe]
  rcases (worldAt events n).barrier.subscribe_cases awaited expected callback with
    ⟨refused, _⟩ | ⟨enters, _⟩
  · exact absurd entered (refused id)
  rw [enters] at entered
  cases entered
  refine ⟨⟨expected, callback, awaited⟩, ?_, rfl⟩
  show _ ∈ ((worldAt events n).barrier.subscribe awaited expected callback).2.listeners
  rw [enters]
  exact List.mem_append_right _ List.mem_cons_self

/-- A callback that a forker has at `m` it still has at `n`, or called in between. -/
theorem called_or_kept (later : m <= n) (member : call ∈ ((worldAt events m).forkers forker).calls) :
    call ∈ ((worldAt events n).forkers forker).calls ∨
      ∃ i, m <= i ∧ i < n ∧ CalledAt events i forker call := by
  induction later with
  | refl => exact .inl member
  | @step n reached ih =>
    rcases ih with still | ⟨i, after, before, called⟩
    · cases present : events[n]? with
      | none =>
        rw [worldAt, stage_past present]
        exact .inl still
      | some event =>
        rcases (worldAt_next present).calls (worldAt_sound n) still with kept | ⟨own, head⟩
        · exact .inl kept
        · exact .inr ⟨n, reached, Nat.lt_succ_self n, own ▸ present, head⟩
    · exact .inr ⟨i, after, Nat.lt_succ_of_lt before, called⟩

theorem called_by_first {s p : Nat} {callback : Callback}
    (subscribed : SubscribedAt events s id callback) (before : s < p)
    (published : PublishedAt events p forker)
    (unpublished : ∀ k other, s < k -> k < p -> ¬ PublishedAt events k other)
    (undropped : ∀ k expected, s < k -> k < p -> events[k]? ≠ some (.drop id expected))
    (later : p < n) (done : ((worldAt events n).forkers forker).calls = []) :
    ∃ i call, p < i ∧ i < n ∧ CalledAt events i forker call ∧ call.id = id ∧
      call.callback = callback ∧
      call.event.generation = (worldAt events (p + 1)).barrier.generation := by
  have listens : ∃ listener, (id, listener) ∈ (worldAt events p).barrier.listeners ∧
      listener.callback = callback := by
    refine stage_keeps_between (fun world : World Callback => ∃ listener,
      (id, listener) ∈ world.barrier.listeners ∧ listener.callback = callback) before ?_
      subscribed.listens
    intro k event after isBefore present held
    rcases held with ⟨listener, member, own⟩
    refine ⟨listener, (run_outcome _ event).listens ?_ ?_ member, own⟩
    · intro other same publishes
      exact unpublished k other after isBefore ⟨same ▸ present, publishes⟩
    · intro expected same
      exact undropped k expected after isBefore (same ▸ present)
  rcases listens with ⟨listener, member, own⟩
  rcases (worldAt_next published.1).takes published.2 member with
    ⟨call, taken, sameId, sameCallback, generation⟩
  rcases called_or_kept later taken with still | ⟨i, after, isBefore, called⟩
  · rw [done] at still
    cases still
  · exact ⟨i, call, after, isBefore, called, sameId, sameCallback.trans own, generation⟩

theorem traced (n : Nat) :
    (∀ id listener, (id, listener) ∈ (worldAt events n).barrier.listeners ->
      ∃ s, s < n ∧ SubscribedAt events s id listener.callback ∧
        ∀ k other, s < k -> k < n -> ¬ PublishedAt events k other) ∧
    (∀ forker call, call ∈ ((worldAt events n).forkers forker).calls ->
      ∃ s p, s < p ∧ p < n ∧ SubscribedAt events s call.id call.callback ∧
        PublishedAt events p forker ∧ ∀ k other, s < k -> k < p -> ¬ PublishedAt events k other) := by
  induction n with
  | zero => exact ⟨nofun, nofun⟩
  | succ n ih =>
    rcases ih with ⟨listening, calling⟩
    cases present : events[n]? with
    | none =>
      rw [worldAt, stage_past present]
      refine ⟨?_, ?_⟩
      · intro id listener member
        rcases listening id listener member with ⟨s, before, subscribed, unpublished⟩
        refine ⟨s, Nat.lt_succ_of_lt before, subscribed, ?_⟩
        intro k other after isBefore published
        rcases Nat.lt_succ_iff_lt_or_eq.mp isBefore with earlier | same
        · exact unpublished k other after earlier published
        · rw [PublishedAt, same, present] at published
          cases published.1
      · intro forker call member
        rcases calling forker call member with ⟨s, p, order, before, origin⟩
        exact ⟨s, p, order, Nat.lt_succ_of_lt before, origin⟩
    | some event =>
      have outcome := worldAt_next present
      refine ⟨?_, ?_⟩
      · intro id listener member
        rcases outcome.listened member with ⟨held, quiet⟩ | ⟨awaited, expected, own, entered⟩
        · rcases listening id listener held with ⟨s, before, subscribed, unpublished⟩
          refine ⟨s, Nat.lt_succ_of_lt before, subscribed, ?_⟩
          intro k other after isBefore published
          rcases Nat.lt_succ_iff_lt_or_eq.mp isBefore with earlier | same
          · exact unpublished k other after earlier published
          · rw [PublishedAt, same, present] at published
            exact quiet other (Option.some.inj published.1) published.2
        · refine ⟨n, Nat.lt_succ_self n, ⟨awaited, expected, own ▸ present, entered⟩, ?_⟩
          intro k other after isBefore
          omega
      · intro forker call member
        rcases outcome.took member with held | ⟨own, publishes, listener, listed, same⟩
        · rcases calling forker call held with ⟨s, p, order, before, origin⟩
          exact ⟨s, p, order, Nat.lt_succ_of_lt before, origin⟩
        · rcases listening call.id listener listed with ⟨s, before, subscribed, unpublished⟩
          exact ⟨s, n, before, Nat.lt_succ_self n, same ▸ subscribed,
            ⟨own ▸ present, publishes⟩, unpublished⟩

end Runs

/-- However forkers, subscribers and drops interleave, a listener that waits is
called back by the first publication after it, once, and by no earlier one. -/
theorem fork_listeners_never_stranded (events : List (BarrierEvent Callback)) :
    NeverStranded events where
  awaited := fun n => (worldAt_sound n).awaited
  called := fun _ _ _ _ _ _ subscribed before published unpublished undropped later done =>
    called_by_first subscribed before published unpublished undropped later done
  once := fun _ _ _ _ _ _ first second same => called_once first second same
  first := by
    rintro i id forker call ⟨event, head⟩ rfl
    exact (traced i).2 forker call (List.mem_of_mem_head? head)

end ForkQuiesce
end Carrick
