import Carrick.Mqueue.Queue

namespace Carrick
namespace Mqueue

open Foundation

/-!
# Interleaved attempts and their publications

Any number of callers attempt, publish, subscribe and unsubscribe in any order.
The locked section of an attempt is one step; its publication is two later ones,
the move of the generation and the calls of the listeners, and any other steps
may come in between.
-/

universe u v

variable {Notify : Type u} {Callback : Type v}

/-- Where a caller stands: between attempts, or after one that changed the queue
and before or after it has moved the generation. -/
inductive Phase where
  | idle
  | changed
  | bumped
deriving DecidableEq, Repr

structure World (Notify : Type u) (Callback : Type v) where
  queue : MqueueInner Notify Callback
  phase : Nat -> Phase

inductive MqueueEvent (Notify : Type u) (Callback : Type v) where
  | attempt (caller : Nat) (request : BlockingMqueue) (circumstances : Circumstances)
  | bump (caller : Nat)
  | callListeners (caller : Nat)
  | subscribe (expected : Nat) (callback : Callback)
  | unsubscribe (id : Nat)
  | settleWaiter (waiter : Nat)
  | setNotify (notify : Option Notify)

namespace World

def setPhase (world : World Notify Callback) (caller : Nat) (phase : Phase) :
    World Notify Callback :=
  { world with phase := fun other => if other = caller then phase else world.phase other }

def new (maxMsg : Nat) : World Notify Callback where
  queue := .new maxMsg
  phase := fun _ => .idle

end World

/-- The attempt changed the queue, and its caller has to publish that. -/
def BlockingMqueueStep.publishes : BlockingMqueueStep Notify -> Bool
  | .done completion => completion.publishes
  | .wait _ => false

def BlockingMqueueStep.taken : BlockingMqueueStep Notify -> Option MqueueMessage
  | .done completion => completion.taken
  | .wait _ => none

namespace MqueueEvent

def run (world : World Notify Callback) : MqueueEvent Notify Callback -> World Notify Callback
  | attempt caller request circumstances =>
    if world.phase caller = .idle then
      let outcome := world.queue.tryComplete request circumstances
      let after := { world with queue := outcome.2 }
      if outcome.1.publishes then after.setPhase caller .changed else after
    else world
  | bump caller =>
    if world.phase caller = .changed then
      { world with queue := world.queue.bumpGeneration }.setPhase caller .bumped
    else world
  | callListeners caller =>
    if world.phase caller = .bumped then world.setPhase caller .idle else world
  | subscribe expected callback =>
    { world with queue := (world.queue.subscribeChange expected callback).2 }
  | unsubscribe id => { world with queue := world.queue.unsubscribe id }
  | settleWaiter waiter => { world with queue := world.queue.settleWaiter waiter }
  | setNotify notify =>
    { world with
      queue := { world.queue with state := { world.queue.state with notify } } }

/-- A publication of a caller: the event moves the generation. -/
def isBump : MqueueEvent Notify Callback -> Bool
  | bump _ => true
  | _ => false

def isSubscribe : MqueueEvent Notify Callback -> Bool
  | subscribe _ _ => true
  | _ => false

end MqueueEvent

/-- The world before the event at position `n`. -/
def worldAt (maxMsg : Nat) (events : List (MqueueEvent Notify Callback)) (n : Nat) :
    World Notify Callback :=
  stage MqueueEvent.run (.new maxMsg) events n

section Occurrences

variable (maxMsg : Nat) (events : List (MqueueEvent Notify Callback))

/-- The attempt at position `n` is made and has this answer. -/
def AttemptAt (n caller : Nat) (request : BlockingMqueue) (answer : BlockingMqueueStep Notify) :
    Prop :=
  ∃ circumstances, events[n]? = some (.attempt caller request circumstances) ∧
    (worldAt maxMsg events n).phase caller = .idle ∧
    ((worldAt maxMsg events n).queue.tryComplete request circumstances).1 = answer

/-- The caller moves the generation at position `n`. -/
def BumpAt (n caller : Nat) : Prop :=
  events[n]? = some (.bump caller) ∧ (worldAt maxMsg events n).phase caller = .changed

/-- The caller calls the listeners at position `n`. -/
def CallAt (n caller : Nat) : Prop :=
  events[n]? = some (.callListeners caller) ∧ (worldAt maxMsg events n).phase caller = .bumped

/-- The discipline of a queue over one run. -/
structure QueueDiscipline : Prop where
  bounded : ∀ n, (worldAt maxMsg events n).queue.state.messages.length <= maxMsg
  ordered : ∀ n, Ordered (worldAt maxMsg events n).queue.state.messages
  /-- A receive takes the oldest message of the highest priority that is there. -/
  oldest : ∀ n caller request answer message, AttemptAt maxMsg events n caller request answer ->
    answer.taken = some message ->
    message ∈ (worldAt maxMsg events n).queue.state.messages ∧
      ∀ other, other ∈ (worldAt maxMsg events n).queue.state.messages ->
        other = message ∨ message.Before other
  /-- No message is delivered twice. -/
  once : ∀ m n caller other request again answer answerAgain message messageAgain,
    AttemptAt maxMsg events m caller request answer -> answer.taken = some message ->
    AttemptAt maxMsg events n other again answerAgain -> answerAgain.taken = some messageAgain ->
    message.stamp = messageAgain.stamp -> m = n
  /-- A caller that is told to wait cannot be served, and has the generation of
  that moment. -/
  observed : ∀ n caller request waiting, AttemptAt maxMsg events n caller request (.wait waiting) ->
    (worldAt maxMsg events n).queue.ready waiting.operation = false ∧
      waiting.observedGeneration = (worldAt maxMsg events n).queue.changeGeneration
  /-- Only an attempt that has to publish makes a request satisfiable. -/
  announced : ∀ n operation, (worldAt maxMsg events n).queue.ready operation = false ->
    (worldAt maxMsg events (n + 1)).queue.ready operation = true ->
    ∃ caller request answer, AttemptAt maxMsg events n caller request answer ∧
      answer.publishes = true ∧ (worldAt maxMsg events (n + 1)).phase caller = .changed
  /-- After the publication the generation is another one, and a subscription for
  the observed one is told so. -/
  moved : ∀ m i b n waiter caller request changing waiting answer callback,
    AttemptAt maxMsg events m waiter request (.wait waiting) -> m < i ->
    AttemptAt maxMsg events i caller changing answer -> answer.publishes = true -> i < b ->
    BumpAt maxMsg events b caller -> b < n -> countBetween events MqueueEvent.isBump m n < wordLimit ->
    (worldAt maxMsg events n).queue.changeGeneration ≠ waiting.observedGeneration ∧
      ((worldAt maxMsg events n).queue.subscribeChange waiting.observedGeneration callback).1 = none
  /-- A listener that was entered before is called. -/
  heard : ∀ s j caller expected callback id,
    events[s]? = some (.subscribe expected callback) ->
    ((worldAt maxMsg events s).queue.subscribeChange expected callback).1 = some id -> s < j ->
    CallAt maxMsg events j caller ->
    (∀ k, s < k -> k < j -> events[k]? ≠ some (.unsubscribe id)) ->
    countBetween events MqueueEvent.isSubscribe s j <= wordLimit ->
    callback ∈ (worldAt maxMsg events j).queue.callbacks
  /-- A waiting caller that subscribes for the generation it observed is told of
  the publication or called by it. -/
  notified : ∀ m i b j s waiter caller request changing waiting answer callback,
    AttemptAt maxMsg events m waiter request (.wait waiting) -> m < i ->
    AttemptAt maxMsg events i caller changing answer -> answer.publishes = true -> i < b ->
    BumpAt maxMsg events b caller -> b < j -> CallAt maxMsg events j caller -> m < s ->
    events[s]? = some (.subscribe waiting.observedGeneration callback) ->
    countBetween events MqueueEvent.isBump m s < wordLimit ->
    countBetween events MqueueEvent.isSubscribe s j <= wordLimit ->
    (∀ id, ((worldAt maxMsg events s).queue.subscribeChange waiting.observedGeneration
        callback).1 = some id -> ∀ k, s < k -> k < j -> events[k]? ≠ some (.unsubscribe id)) ->
    ((worldAt maxMsg events s).queue.subscribeChange waiting.observedGeneration callback).1 = none ∨
      s < j ∧ callback ∈ (worldAt maxMsg events j).queue.callbacks

end Occurrences

/-! ## What one event does -/

/-- How the messages may move in one event: nothing happens, a message goes in
at its place, or the first one leaves. -/
inductive Moves (before after : MqueueState Notify) : Prop
  | stays (messages : after.messages = before.messages) (maxMsg : after.maxMsg = before.maxMsg)
      (sent : after.sent = before.sent)
  | sends (new : MqueueMessage) (stamped : new.stamp = before.sent)
      (room : before.messages.length < before.maxMsg)
      (messages : after.messages =
        before.messages.insertIdx (MqueueInner.position before.messages new.prio) new)
      (maxMsg : after.maxMsg = before.maxMsg) (sent : after.sent = before.sent + 1)
  | receives (message : MqueueMessage) (first : before.messages = message :: after.messages)
      (maxMsg : after.maxMsg = before.maxMsg) (sent : after.sent = before.sent)

variable {queue : MqueueInner Notify Callback} {request : BlockingMqueue}
  {outcome : BlockingMqueueStep Notify × MqueueInner Notify Callback}

theorem Attempted.moves (attempted : Attempted queue request outcome) :
    Moves queue.state outcome.2.state := by
  cases attempted with
  | answers answer after same published => exact .stays (by rw [same]) (by rw [same]) (by rw [same])
  | waits waiting after same published => exact .stays (by rw [same]) (by rw [same]) (by rw [same])
  | sends payload priority room => exact .sends _ rfl room rfl rfl rfl
  | receives message rest completion after first taken publishes state published =>
    refine .receives message ?_ ?_ ?_
    · rw [first, state]
    · rw [state]
    · rw [state]

theorem Attempted.samePublication (attempted : Attempted queue request outcome) :
    SamePublication queue outcome.2 := by
  cases attempted with
  | answers answer after same published => exact published
  | waits waiting after same published => exact published
  | sends payload priority room => exact ⟨rfl, rfl, rfl⟩
  | receives message rest completion after first taken publishes state published =>
    exact published

theorem Attempted.unpublished (attempted : Attempted queue request outcome)
    (silent : outcome.1.publishes = false) :
    outcome.2.state = queue.state := by
  cases attempted with
  | answers answer after same published => exact same
  | waits waiting after same published => exact same
  | sends payload priority room => cases silent
  | receives message rest completion after first taken publishes state published =>
    rw [BlockingMqueueStep.publishes, publishes] at silent
    cases silent

theorem Attempted.taken_first {message : MqueueMessage}
    (attempted : Attempted queue request outcome) (takes : outcome.1.taken = some message) :
    queue.state.messages = message :: outcome.2.state.messages ∧
      outcome.2.state.sent = queue.state.sent := by
  cases attempted with
  | answers answer after same published => cases takes
  | waits waiting after same published => cases takes
  | sends payload priority room => cases takes
  | receives first rest completion after leads taken publishes state published =>
    rw [BlockingMqueueStep.taken, taken] at takes
    cases takes
    rw [state]
    exact ⟨leads, rfl⟩

theorem run_attempt {world : World Notify Callback} {caller : Nat} {circumstances : Circumstances}
    (idle : world.phase caller = .idle) :
    (MqueueEvent.run world (.attempt caller request circumstances)).queue =
      (world.queue.tryComplete request circumstances).2 := by
  rw [MqueueEvent.run, if_pos idle]
  dsimp only
  split
  · rfl
  · rfl

theorem run_stays_or_publishes (world : World Notify Callback)
    (event : MqueueEvent Notify Callback) :
    ((event.run world).queue.state.messages = world.queue.state.messages ∧
        (event.run world).queue.state.maxMsg = world.queue.state.maxMsg ∧
        (event.run world).queue.state.sent = world.queue.state.sent) ∨
      ∃ caller request circumstances, event = .attempt caller request circumstances ∧
        world.phase caller = .idle ∧
        (world.queue.tryComplete request circumstances).1.publishes = true ∧
        (event.run world).phase caller = .changed := by
  cases event with
  | attempt caller request circumstances =>
    rw [MqueueEvent.run]
    by_cases idle : world.phase caller = .idle
    · rw [if_pos idle]
      dsimp only
      cases publishes : (world.queue.tryComplete request circumstances).1.publishes with
      | true =>
        refine .inr ⟨caller, request, circumstances, rfl, idle, publishes, ?_⟩
        rw [if_pos rfl]
        exact if_pos rfl
      | false =>
        have same := (tryComplete_attempted world.queue request circumstances).unpublished
          publishes
        rw [if_neg Bool.false_ne_true]
        refine .inl ⟨?_, ?_, ?_⟩
        · exact congrArg MqueueState.messages same
        · exact congrArg MqueueState.maxMsg same
        · exact congrArg MqueueState.sent same
    · rw [if_neg idle]
      exact .inl ⟨rfl, rfl, rfl⟩
  | bump caller =>
    rw [MqueueEvent.run]
    split
    · exact .inl ⟨rfl, rfl, rfl⟩
    · exact .inl ⟨rfl, rfl, rfl⟩
  | callListeners caller =>
    rw [MqueueEvent.run]
    split
    · exact .inl ⟨rfl, rfl, rfl⟩
    · exact .inl ⟨rfl, rfl, rfl⟩
  | subscribe expected callback =>
    rw [MqueueEvent.run]
    unfold MqueueInner.subscribeChange
    dsimp only
    split
    · exact .inl ⟨rfl, rfl, rfl⟩
    · exact .inl ⟨rfl, rfl, rfl⟩
  | unsubscribe id => exact .inl ⟨rfl, rfl, rfl⟩
  | settleWaiter waiter =>
    have same := (settle_same world.queue (some waiter)).1
    refine .inl ⟨?_, ?_, ?_⟩
    · exact congrArg MqueueState.messages same
    · exact congrArg MqueueState.maxMsg same
    · exact congrArg MqueueState.sent same
  | setNotify notify => exact .inl ⟨rfl, rfl, rfl⟩

theorem run_moves (world : World Notify Callback) (event : MqueueEvent Notify Callback) :
    Moves world.queue.state (event.run world).queue.state := by
  rcases run_stays_or_publishes world event with
    ⟨messages, maxMsg, sent⟩ | ⟨caller, request, circumstances, rfl, idle, _, _⟩
  · exact .stays messages maxMsg sent
  · rw [run_attempt idle]
    exact (tryComplete_attempted world.queue request circumstances).moves

/-! ## The messages over a run -/

/-- What holds of the messages in every world: within the bound, by priority and
age, and each with a stamp of its own. -/
structure Sound (maxMsg : Nat) (state : MqueueState Notify) : Prop where
  maxMsg_eq : state.maxMsg = maxMsg
  bounded : state.messages.length <= maxMsg
  ordered : Ordered state.messages
  stamped : ∀ message ∈ state.messages, message.stamp < state.sent
  distinct : (state.messages.map MqueueMessage.stamp).Nodup

theorem Sound.moves {maxMsg : Nat} {before after : MqueueState Notify}
    (sound : Sound maxMsg before) (moves : Moves before after) : Sound maxMsg after := by
  cases moves with
  | stays messages same sent =>
    rcases sound with ⟨maxMsg_eq, bounded, ordered, stamped, distinct⟩
    rw [<- same] at maxMsg_eq
    rw [<- messages] at bounded ordered stamped distinct
    rw [<- sent] at stamped
    exact ⟨maxMsg_eq, bounded, ordered, stamped, distinct⟩
  | sends new stamped room messages same sent =>
    have newest : ∀ message ∈ before.messages, message.stamp < new.stamp := by
      intro message member
      rw [stamped]
      exact sound.stamped message member
    refine ⟨same.trans sound.maxMsg_eq, ?_, ?_, ?_, ?_⟩
    · rw [messages, length_insert_position, <- sound.maxMsg_eq]
      exact room
    · rw [messages]
      exact sound.ordered.insert newest
    · intro message member
      rw [messages, mem_insert_position] at member
      rw [sent]
      rcases member with rfl | old
      · rw [stamped]
        exact Nat.lt_succ_self _
      · exact Nat.lt_succ_of_lt (sound.stamped message old)
    have inside : MqueueInner.position before.messages new.prio <= before.messages.length :=
      List.findIdx_le_length
    rw [messages, ((List.perm_insertIdx new before.messages inside).map _).nodup_iff,
      List.map_cons, List.nodup_cons]
    refine ⟨?_, sound.distinct⟩
    intro member
    rcases List.mem_map.mp member with ⟨old, there, same⟩
    exact Nat.ne_of_lt (newest old there) same
  | receives message first same sent =>
    have ordered := sound.ordered
    have bounded := sound.bounded
    have distinct := sound.distinct
    rw [first] at ordered bounded distinct
    refine ⟨same.trans sound.maxMsg_eq, Nat.le_of_succ_le bounded,
      (List.pairwise_cons.mp ordered).2, ?_, (List.nodup_cons.mp distinct).2⟩
    intro other member
    rw [sent]
    refine sound.stamped other ?_
    rw [first]
    exact List.mem_cons_of_mem _ member

/-- The message with this number has left the queue for good. -/
structure Gone (stamp : Nat) (state : MqueueState Notify) : Prop where
  was_sent : stamp < state.sent
  absent : ∀ message ∈ state.messages, message.stamp ≠ stamp

theorem Gone.moves {stamp : Nat} {before after : MqueueState Notify} (gone : Gone stamp before)
    (moves : Moves before after) : Gone stamp after := by
  cases moves with
  | stays messages _ sent =>
    rcases gone with ⟨was_sent, absent⟩
    rw [<- sent] at was_sent
    rw [<- messages] at absent
    exact ⟨was_sent, absent⟩
  | sends new stamped _ messages _ sent =>
    constructor
    · rw [sent]
      exact Nat.lt_succ_of_lt gone.was_sent
    intro message member
    rw [messages, mem_insert_position] at member
    rcases member with rfl | old
    · rw [stamped]
      exact Nat.ne_of_gt gone.was_sent
    · exact gone.absent message old
  | receives message first _ sent =>
    constructor
    · rw [sent]
      exact gone.was_sent
    · intro other member
      refine gone.absent other ?_
      rw [first]
      exact List.mem_cons_of_mem _ member

section Run

variable {maxMsg : Nat} {events : List (MqueueEvent Notify Callback)}

variable {n : Nat}

theorem worldAt_next {event : MqueueEvent Notify Callback} (present : events[n]? = some event) :
    worldAt maxMsg events (n + 1) = event.run (worldAt maxMsg events n) :=
  stage_next present

theorem worldAt_sound (n : Nat) : Sound maxMsg (worldAt maxMsg events n).queue.state := by
  refine stage_invariant
    (fun world : World Notify Callback => Sound maxMsg world.queue.state) ?_ ?_ n
  · refine ⟨rfl, Nat.zero_le _, List.Pairwise.nil, ?_, List.nodup_nil⟩
    intro message member
    cases member
  · intro world event _ sound
    exact sound.moves (run_moves world event)

variable {m : Nat}

theorem worldAt_gone {stamp : Nat} (later : m <= n)
    (gone : Gone stamp (worldAt maxMsg events m).queue.state) :
    Gone stamp (worldAt maxMsg events n).queue.state :=
  stage_keeps (fun world : World Notify Callback => Gone stamp world.queue.state)
    (fun world event _ held => Gone.moves held (run_moves world event)) later gone

variable {caller : Nat}

theorem taken_gone {request : BlockingMqueue} {answer : BlockingMqueueStep Notify}
    {message : MqueueMessage} (attempt : AttemptAt maxMsg events n caller request answer)
    (takes : answer.taken = some message) :
    (∃ rest, (worldAt maxMsg events n).queue.state.messages = message :: rest) ∧
      Gone message.stamp (worldAt maxMsg events (n + 1)).queue.state := by
  rcases attempt with ⟨circumstances, present, idle, rfl⟩
  have attempted := tryComplete_attempted (worldAt maxMsg events n).queue request circumstances
  rcases attempted.taken_first takes with ⟨first, sent⟩
  have sound : Sound maxMsg (worldAt maxMsg events n).queue.state := worldAt_sound n
  refine ⟨⟨_, first⟩, ?_⟩
  rw [worldAt_next present, run_attempt idle]
  constructor
  · rw [sent]
    refine sound.stamped message ?_
    rw [first]
    exact List.mem_cons_self
  · intro other member same
    have distinct := sound.distinct
    rw [first, List.map_cons, List.nodup_cons] at distinct
    exact distinct.1 (List.mem_map.mpr ⟨other, member, same⟩)

theorem not_taken_again {other : Nat} {request again : BlockingMqueue}
    {answer answerAgain : BlockingMqueueStep Notify} {message messageAgain : MqueueMessage}
    (before : m < n) (one : AttemptAt maxMsg events m caller request answer)
    (takes : answer.taken = some message)
    (two : AttemptAt maxMsg events n other again answerAgain)
    (takesAgain : answerAgain.taken = some messageAgain) :
    message.stamp ≠ messageAgain.stamp := by
  have gone := worldAt_gone before (taken_gone one takes).2
  rcases (taken_gone two takesAgain).1 with ⟨rest, first⟩
  refine (gone.absent messageAgain ?_).symm
  rw [first]
  exact List.mem_cons_self

/-! ## The generation over a run -/

theorem run_generation (world : World Notify Callback) (event : MqueueEvent Notify Callback) :
    (event.run world).queue.changeGeneration = world.queue.changeGeneration ∨
      event.isBump = true ∧ (event.run world).queue.changeGeneration =
        (world.queue.changeGeneration + 1) % wordLimit := by
  cases event with
  | attempt caller request circumstances =>
    by_cases idle : world.phase caller = .idle
    · rw [run_attempt idle]
      exact .inl (tryComplete_attempted world.queue request circumstances).samePublication.generation
    · rw [MqueueEvent.run, if_neg idle]
      exact .inl rfl
  | bump caller =>
    rw [MqueueEvent.run]
    split
    · exact .inr ⟨rfl, rfl⟩
    · exact .inl rfl
  | callListeners caller =>
    rw [MqueueEvent.run]
    split
    · exact .inl rfl
    · exact .inl rfl
  | subscribe expected callback =>
    rw [MqueueEvent.run]
    unfold MqueueInner.subscribeChange
    dsimp only
    split
    · exact .inl rfl
    · exact .inl rfl
  | unsubscribe id => exact .inl rfl
  | settleWaiter waiter => exact .inl (settle_same world.queue (some waiter)).2.generation
  | setNotify notify => exact .inl rfl

theorem worldAt_generation_lt (n : Nat) :
    (worldAt maxMsg events n).queue.changeGeneration < wordLimit := by
  refine stage_invariant
    (fun world : World Notify Callback => world.queue.changeGeneration < wordLimit) ?_ ?_ n
  · exact wordLimit_pos
  · intro world event _ held
    rcases run_generation world event with same | ⟨_, moved⟩
    · exact lt_of_eq_of_lt same held
    · exact lt_of_eq_of_lt moved (Nat.mod_lt _ wordLimit_pos)

/-- From one position to another the generation counts some of the bumps in
between. -/
theorem generation_counts (later : m <= n) :
    ∃ steps, steps <= countBetween events MqueueEvent.isBump m n ∧
      (worldAt maxMsg events n).queue.changeGeneration =
        ((worldAt maxMsg events m).queue.changeGeneration + steps) % wordLimit := by
  induction later with
  | refl =>
    refine ⟨0, Nat.zero_le _, ?_⟩
    exact (Nat.mod_eq_of_lt (worldAt_generation_lt m)).symm
  | @step n reached ih =>
    rcases ih with ⟨steps, counted, same⟩
    cases present : events[n]? with
    | none =>
      refine ⟨steps, ?_, ?_⟩
      · rw [countBetween_past present]
        exact counted
      · have stays : worldAt maxMsg events (n + 1) = worldAt maxMsg events n :=
          stage_past present
        rw [stays]
        exact same
    | some event =>
      rw [worldAt_next present, countBetween_next reached present]
      rcases run_generation (worldAt maxMsg events n) event with stays | ⟨isBump, moved⟩
      · exact ⟨steps, Nat.le_add_right_of_le counted, stays.trans same⟩
      · refine ⟨steps + 1, ?_, ?_⟩
        · rw [if_pos isBump]
          exact Nat.succ_le_succ counted
        · rw [moved, same, Nat.mod_add_mod, Nat.add_assoc]

theorem bump_moves {b : Nat} (bumps : BumpAt maxMsg events b caller) :
    (worldAt maxMsg events (b + 1)).queue.changeGeneration =
      ((worldAt maxMsg events b).queue.changeGeneration + 1) % wordLimit := by
  rw [worldAt_next bumps.1, MqueueEvent.run, if_pos bumps.2]
  rfl

/-- With a due bump in between, and fewer bumps than there are generations, the
generation is another one. -/
theorem generation_moved {b : Nat} (before : m <= b) (bumps : BumpAt maxMsg events b caller)
    (after : b < n) (few : countBetween events MqueueEvent.isBump m n < wordLimit) :
    (worldAt maxMsg events n).queue.changeGeneration ≠
      (worldAt maxMsg events m).queue.changeGeneration := by
  rcases generation_counts before with ⟨first, firstCounted, atBump⟩
  have later : b + 1 <= n := after
  rcases generation_counts later with ⟨second, secondCounted, atEnd⟩
  have split : countBetween events MqueueEvent.isBump m n =
      countBetween events MqueueEvent.isBump m (b + 1) +
        countBetween events MqueueEvent.isBump (b + 1) n :=
    (countBetween_add (Nat.le_succ_of_le before) later).symm
  have isBump : (MqueueEvent.bump caller : MqueueEvent Notify Callback).isBump = true := rfl
  rw [countBetween_next before bumps.1, if_pos isBump] at split
  rw [bump_moves bumps, atBump, Nat.mod_add_mod, Nat.add_assoc, Nat.mod_add_mod] at atEnd
  have bounded : (worldAt maxMsg events m).queue.changeGeneration < wordLimit :=
    worldAt_generation_lt m
  rw [atEnd, Nat.add_assoc]
  exact wrapped_ne bounded (by omega) (by omega)

variable {expected : Nat}

theorem subscribe_ready (callback : Callback) (moved : queue.changeGeneration ≠ expected) :
    (queue.subscribeChange expected callback).1 = none := by
  unfold MqueueInner.subscribeChange
  dsimp only
  rw [if_pos moved]

/-! ## The listeners over a run -/

/-- A listener stays entered, and the numbers given out since are others. -/
structure Listening (id : Nat) (callback : Callback) (subscriptions : Nat)
    (queue : MqueueInner Notify Callback) : Prop where
  entered : (id, callback) ∈ queue.changeListeners
  numbered : ∃ steps, 1 <= steps ∧ steps <= subscriptions ∧
    queue.nextChangeListener = (id + steps) % wordLimit

variable {id subscriptions : Nat} {callback : Callback}

theorem Listening.same {before after : MqueueInner Notify Callback}
    (listening : Listening id callback subscriptions before)
    (listeners : after.changeListeners = before.changeListeners)
    (next : after.nextChangeListener = before.nextChangeListener) :
    Listening id callback subscriptions after := by
  rcases listening with ⟨entered, numbered⟩
  rw [<- listeners] at entered
  rw [<- next] at numbered
  exact ⟨entered, numbered⟩

theorem mem_others {other : Nat} {listeners : List (Nat × Callback)}
    (entered : (id, callback) ∈ listeners) (apart : other ≠ id) :
    (id, callback) ∈ listeners.filter (fun listener => listener.1 != other) :=
  List.mem_filter.mpr ⟨entered, bne_iff_ne.mpr (Ne.symm apart)⟩

theorem Listening.subscribe {another : Callback}
    (listening : Listening id callback subscriptions queue) (valid : id < wordLimit)
    (few : subscriptions < wordLimit) :
    Listening id callback (subscriptions + 1) (queue.subscribeChange expected another).2 := by
  rcases listening.numbered with ⟨steps, positive, counted, next⟩
  have apart : queue.nextChangeListener ≠ id := by
    rw [next]
    exact wrapped_ne valid positive (Nat.lt_of_le_of_lt counted few)
  have numbered : ∃ later, 1 <= later ∧ later <= subscriptions + 1 ∧
      (queue.nextChangeListener + 1) % wordLimit = (id + later) % wordLimit := by
    refine ⟨steps + 1, Nat.succ_pos _, Nat.succ_le_succ counted, ?_⟩
    rw [next, Nat.mod_add_mod, Nat.add_assoc]
  have others := mem_others listening.entered apart
  unfold MqueueInner.subscribeChange
  dsimp only
  split
  · exact ⟨others, numbered⟩
  · exact ⟨List.mem_cons_of_mem _ others, numbered⟩

theorem run_listening {world : World Notify Callback} {event : MqueueEvent Notify Callback}
    (listening : Listening id callback subscriptions world.queue) (valid : id < wordLimit)
    (few : event.isSubscribe = true -> subscriptions < wordLimit) (kept : event ≠ .unsubscribe id) :
    Listening id callback (subscriptions + if event.isSubscribe then 1 else 0)
      (event.run world).queue := by
  cases event with
  | attempt caller request circumstances =>
    by_cases idle : world.phase caller = .idle
    · have same := (tryComplete_attempted world.queue request circumstances).samePublication
      rw [run_attempt idle]
      exact listening.same same.listeners same.nextListener
    · rw [MqueueEvent.run, if_neg idle]
      exact listening
  | bump caller =>
    rw [MqueueEvent.run]
    by_cases due : world.phase caller = .changed
    · rw [if_pos due]
      exact listening.same rfl rfl
    · rw [if_neg due]
      exact listening
  | callListeners caller =>
    rw [MqueueEvent.run]
    by_cases due : world.phase caller = .bumped
    · rw [if_pos due]
      exact listening.same rfl rfl
    · rw [if_neg due]
      exact listening
  | subscribe expected another => exact listening.subscribe valid (few rfl)
  | unsubscribe other =>
    have apart : other ≠ id := fun same => kept (congrArg _ same)
    exact ⟨mem_others listening.entered apart, listening.numbered⟩
  | settleWaiter waiter =>
    have same := (settle_same world.queue (some waiter)).2
    exact listening.same same.listeners same.nextListener
  | setNotify notify => exact listening.same rfl rfl

theorem subscribed_listening (answer : (queue.subscribeChange expected callback).1 = some id) :
    id = queue.nextChangeListener ∧
      Listening id callback 1 (queue.subscribeChange expected callback).2 := by
  unfold MqueueInner.subscribeChange at answer ⊢
  dsimp only at answer ⊢
  split at answer
  · cases answer
  · rename_i current
    rw [if_neg current]
    cases answer
    exact ⟨rfl, List.mem_cons_self, 1, Nat.le_refl 1, Nat.le_refl 1, rfl⟩

theorem worldAt_nextListener_lt (n : Nat) :
    (worldAt maxMsg events n).queue.nextChangeListener < wordLimit := by
  refine stage_invariant
    (fun world : World Notify Callback => world.queue.nextChangeListener < wordLimit) ?_ ?_ n
  · show 1 < wordLimit
    decide
  intro world event _ held
  cases event with
  | attempt caller request circumstances =>
    by_cases idle : world.phase caller = .idle
    · have same := (tryComplete_attempted world.queue request circumstances).samePublication
      rw [run_attempt idle]
      exact lt_of_eq_of_lt same.nextListener held
    · rw [MqueueEvent.run, if_neg idle]
      exact held
  | bump caller =>
    rw [MqueueEvent.run]
    split
    · exact held
    · exact held
  | callListeners caller =>
    rw [MqueueEvent.run]
    split
    · exact held
    · exact held
  | subscribe expected callback =>
    rw [MqueueEvent.run]
    unfold MqueueInner.subscribeChange
    dsimp only
    split
    · exact Nat.mod_lt _ wordLimit_pos
    · exact Nat.mod_lt _ wordLimit_pos
  | unsubscribe id => exact held
  | settleWaiter waiter =>
    exact lt_of_eq_of_lt (settle_same world.queue (some waiter)).2.nextListener held
  | setNotify notify => exact held

theorem listener_called {s j : Nat} (called : events[s]? = some (.subscribe expected callback))
    (answer : ((worldAt maxMsg events s).queue.subscribeChange expected callback).1 = some id)
    (later : s < j) (kept : ∀ k, s < k -> k < j -> events[k]? ≠ some (.unsubscribe id))
    (few : countBetween events MqueueEvent.isSubscribe s j <= wordLimit) :
    callback ∈ (worldAt maxMsg events j).queue.callbacks := by
  rcases subscribed_listening answer with ⟨numbered, listening⟩
  have valid : id < wordLimit := lt_of_eq_of_lt numbered (worldAt_nextListener_lt s)
  have isSubscribe :
      (MqueueEvent.subscribe expected callback : MqueueEvent Notify Callback).isSubscribe = true :=
    rfl
  have reached : ∀ n, s < n -> n <= j -> Listening id callback
      (countBetween events MqueueEvent.isSubscribe s n) (worldAt maxMsg events n).queue := by
    intro n after
    induction after with
    | refl =>
      intro _
      rw [countBetween_next (Nat.le_refl s) called, countBetween_self, if_pos isSubscribe,
        worldAt_next called]
      exact listening
    | @step n reached ih =>
      intro before
      have held := ih (Nat.le_of_succ_le before)
      have bounded : countBetween events MqueueEvent.isSubscribe s (n + 1) <=
          countBetween events MqueueEvent.isSubscribe s j :=
        countBetween_mono (Nat.le_succ_of_le (Nat.le_of_lt reached)) before
      cases present : events[n]? with
      | none =>
        have stays : worldAt maxMsg events (n + 1) = worldAt maxMsg events n :=
          stage_past present
        rw [countBetween_past present, stays]
        exact held
      | some event =>
        rw [countBetween_next (Nat.le_of_lt reached) present] at bounded ⊢
        rw [worldAt_next present]
        refine run_listening held valid ?_ ?_
        · intro isAnother
          rw [if_pos isAnother] at bounded
          omega
        · rintro rfl
          exact kept n reached before present
  exact List.mem_map.mpr ⟨_, (reached j later (Nat.le_refl j)).entered, rfl⟩

end Run

/-! ## The whole discipline -/

theorem ready_congr {before after : MqueueInner Notify Callback}
    (messages : after.state.messages = before.state.messages)
    (maxMsg : after.state.maxMsg = before.state.maxMsg) (operation : BlockingMqueueOperation) :
    after.ready operation = before.ready operation := by
  cases operation with
  | send payload priority =>
    unfold MqueueInner.ready
    rw [messages, maxMsg]
  | receive buffer priority =>
    unfold MqueueInner.ready
    rw [messages]

section Discipline

variable {maxMsg : Nat} {events : List (MqueueEvent Notify Callback)}

theorem told_to_wait {n caller : Nat} {request waiting : BlockingMqueue}
    (attempt : AttemptAt maxMsg events n caller request (.wait waiting)) :
    (worldAt maxMsg events n).queue.ready waiting.operation = false ∧
      waiting.observedGeneration = (worldAt maxMsg events n).queue.changeGeneration := by
  rcases attempt with ⟨circumstances, _, _, answer⟩
  have attempted := tryComplete_attempted (worldAt maxMsg events n).queue request circumstances
  generalize (worldAt maxMsg events n).queue.tryComplete request circumstances = outcome
    at attempted answer
  cases attempted with
  | answers => cases answer
  | waits _ _ same published unready operation observed =>
    cases answer
    rw [operation]
    exact ⟨unready, observed⟩
  | sends => cases answer
  | receives => cases answer

theorem becomes_ready {n : Nat} {operation : BlockingMqueueOperation}
    (unready : (worldAt maxMsg events n).queue.ready operation = false)
    (ready : (worldAt maxMsg events (n + 1)).queue.ready operation = true) :
    ∃ caller request answer, AttemptAt maxMsg events n caller request answer ∧
      answer.publishes = true ∧ (worldAt maxMsg events (n + 1)).phase caller = .changed := by
  cases present : events[n]? with
  | none =>
    have stays : worldAt maxMsg events (n + 1) = worldAt maxMsg events n := stage_past present
    rw [stays, unready] at ready
    cases ready
  | some event =>
    rw [worldAt_next present] at ready ⊢
    rcases run_stays_or_publishes (worldAt maxMsg events n) event with
      ⟨messages, same, _⟩ | ⟨caller, request, circumstances, rfl, idle, publishes, changed⟩
    · rw [ready_congr messages same, unready] at ready
      cases ready
    · exact ⟨caller, request, _, ⟨circumstances, present, idle, rfl⟩, publishes, changed⟩

/-- Over every interleaving of attempts, publications, subscriptions and drops,
the queue keeps its order and no wakeup is lost. -/
theorem queue_discipline (maxMsg : Nat) (events : List (MqueueEvent Notify Callback)) :
    QueueDiscipline maxMsg events where
  bounded := fun n => (worldAt_sound n).bounded
  ordered := fun n => (worldAt_sound n).ordered
  oldest := by
    intro n caller request answer message attempt takes
    have sound : Sound maxMsg (worldAt maxMsg events n).queue.state := worldAt_sound n
    rcases (taken_gone attempt takes).1 with ⟨rest, first⟩
    have ordered := sound.ordered
    rw [first] at ordered ⊢
    refine ⟨List.mem_cons_self, ?_⟩
    intro other member
    rcases List.mem_cons.mp member with same | later
    · exact .inl same
    · exact .inr ((List.pairwise_cons.mp ordered).1 other later)
  once := by
    intro m n caller other request again answer answerAgain message messageAgain one takes two
      takesAgain same
    rcases Nat.lt_trichotomy m n with before | equal | after
    · exact absurd same (not_taken_again before one takes two takesAgain)
    · exact equal
    · exact absurd same.symm (not_taken_again after two takesAgain one takes)
  observed := by
    intro n caller request waiting attempt
    exact told_to_wait attempt
  announced := by
    intro n operation unready ready
    exact becomes_ready unready ready
  moved := by
    intro m i b n waiter caller request changing waiting answer callback waits after _ _ later bumps
      before few
    have moved := generation_moved (Nat.le_of_lt (Nat.lt_trans after later)) bumps before few
    rw [(told_to_wait waits).2]
    exact ⟨moved, subscribe_ready callback moved⟩
  heard := by
    intro s j caller expected callback id called answer later _ kept few
    exact listener_called called answer later kept few
  notified := by
    intro m i b j s waiter caller request changing waiting answer callback waits after _ _ later
      bumps calls _ subscribes called fewBumps fewSubscriptions kept
    rcases Nat.lt_trichotomy s b with before | same | behind
    · cases entered : ((worldAt maxMsg events s).queue.subscribeChange waiting.observedGeneration
          callback).1 with
      | none => exact .inl rfl
      | some id =>
        refine .inr ⟨Nat.lt_trans before calls, ?_⟩
        exact listener_called called entered (Nat.lt_trans before calls) (kept id entered)
          fewSubscriptions
    · rw [same, bumps.1] at called
      cases called
    · have moved := generation_moved (Nat.le_of_lt (Nat.lt_trans after later)) bumps behind fewBumps
      rw [(told_to_wait waits).2]
      exact .inl (subscribe_ready callback moved)

end Discipline

/-! ## A full round of the generation -/

/-- Nothing stands in the way of the caller, and it would rather wait. -/
def patient : Circumstances := ⟨false, false, false, false, false⟩

def receiveRequest : BlockingMqueue := ⟨.receive 0 none, 0, none⟩

def sendRequest : BlockingMqueue := ⟨.send [] 0, 0, none⟩

/-- An attempt of the first caller with its publication. -/
def published (request : BlockingMqueue) : List (MqueueEvent Unit Unit) :=
  [.attempt 1 request patient, .bump 1, .callListeners 1]

/-- A send and a receive, over and over. -/
def exchanges : Nat -> List (MqueueEvent Unit Unit)
  | 0 => []
  | rounds + 1 => published sendRequest ++ published receiveRequest ++ exchanges rounds

/-- The queue of one place is at rest with so many messages. -/
structure AtRest (messages generation : Nat) (world : World Unit Unit) : Prop where
  messages_eq : world.queue.state.messages.length = messages
  maxMsg_eq : world.queue.state.maxMsg = 1
  idle : world.phase 1 = .idle
  generation_eq : world.queue.changeGeneration = generation

variable {world : World Unit Unit} {generation : Nat}

theorem published_rests {before after : Nat} (rests : AtRest before generation world)
    (publishes : (world.queue.tryComplete request patient).1.publishes = true)
    (messages : (world.queue.tryComplete request patient).2.state.messages.length = after) :
    AtRest after ((generation + 1) % wordLimit)
      ((published request).foldl MqueueEvent.run world) := by
  have attempted := tryComplete_attempted world.queue request patient
  have same := attempted.samePublication.generation.trans rests.generation_eq
  have places : (world.queue.tryComplete request patient).2.state.maxMsg = 1 := by
    cases attempted.moves with
    | stays _ maxMsg _ => exact maxMsg.trans rests.maxMsg_eq
    | sends _ _ _ _ maxMsg _ => exact maxMsg.trans rests.maxMsg_eq
    | receives _ _ maxMsg _ => exact maxMsg.trans rests.maxMsg_eq
  have ended : (published request).foldl MqueueEvent.run world =
      (({ world with queue := (world.queue.tryComplete request patient).2.bumpGeneration }.setPhase
        1 .changed).setPhase 1 .bumped).setPhase 1 .idle := by
    unfold published
    rw [List.foldl_cons, MqueueEvent.run, if_pos rests.idle, if_pos publishes]
    rfl
  rw [ended]
  exact ⟨messages, places, rfl, congrArg (fun current => (current + 1) % wordLimit) same⟩

theorem exchange_rests (rests : AtRest 0 generation world) :
    AtRest 0 ((generation + 2) % wordLimit)
      ((published sendRequest ++ published receiveRequest).foldl MqueueEvent.run world) := by
  have empty : world.queue.state.messages = [] := List.eq_nil_of_length_eq_zero rests.messages_eq
  have room : world.queue.ready sendRequest.operation = true := by
    refine decide_eq_true ?_
    rw [rests.messages_eq, rests.maxMsg_eq]
    exact Nat.zero_lt_one
  have calm : ¬ patient.interrupted = true := Bool.false_ne_true
  have sending : world.queue.tryComplete sendRequest patient = world.queue.send [] 0 := by
    unfold MqueueInner.tryComplete
    rw [if_neg calm, room, if_neg nofun]
    rfl
  have full : AtRest 1 ((generation + 1) % wordLimit)
      ((published sendRequest).foldl MqueueEvent.run world) := by
    refine published_rests rests ?_ ?_
    · rw [sending]
      rfl
    · rw [sending]
      exact (length_insert_position _ _).trans (congrArg (· + 1) rests.messages_eq)
  rw [List.foldl_append]
  generalize (published sendRequest).foldl MqueueEvent.run world = later at full
  rcases List.exists_cons_of_length_eq_add_one full.messages_eq with ⟨message, rest, first⟩
  have left : rest.length = 0 := by
    have length := full.messages_eq
    rw [first] at length
    exact Nat.succ.inj length
  have ready : later.queue.ready receiveRequest.operation = true := by
    show (!later.queue.state.messages.isEmpty) = true
    rw [first]
    rfl
  have receiving : later.queue.tryComplete receiveRequest patient =
      later.queue.receive none none patient := by
    unfold MqueueInner.tryComplete
    rw [if_neg calm, ready, if_neg nofun]
    rfl
  have taken : later.queue.receive none none patient =
      (.done { outcome := .returned message.payload.length, notify := none,
               taken := some message, publishes := true }, later.queue.setMessages rest) := by
    unfold MqueueInner.receive
    rw [first]
    dsimp only
    rw [if_neg (fun both => by cases both.2)]
    rfl
  have rested : AtRest 0 (((generation + 1) % wordLimit + 1) % wordLimit)
      ((published receiveRequest).foldl MqueueEvent.run later) := by
    refine published_rests full ?_ ?_
    · rw [receiving, taken]
      rfl
    · rw [receiving, taken]
      exact left
  rw [Nat.mod_add_mod, Nat.add_assoc] at rested
  exact rested

theorem exchanges_rest (rounds : Nat) (rests : AtRest 0 generation world)
    (valid : generation < wordLimit) :
    AtRest 0 ((generation + 2 * rounds) % wordLimit)
      ((exchanges rounds).foldl MqueueEvent.run world) := by
  induction rounds generalizing world generation with
  | zero =>
    rw [Nat.mul_zero, Nat.add_zero, Nat.mod_eq_of_lt valid]
    exact rests
  | succ rounds ih =>
    rw [exchanges, List.foldl_append]
    have later := ih (exchange_rests rests) (Nat.mod_lt _ wordLimit_pos)
    rw [Nat.mod_add_mod, Nat.add_assoc, Nat.add_comm 2, <- Nat.mul_succ] at later
    exact later

/-- A waiting receiver, then a number of exchanges. -/
def waitedRun (rounds : Nat) : List (MqueueEvent Unit Unit) :=
  .attempt 0 receiveRequest patient :: exchanges rounds

theorem waitedRun_generation (rounds : Nat) :
    (worldAt 1 (waitedRun rounds) (waitedRun rounds).length).queue.changeGeneration =
      2 * rounds % wordLimit := by
  have waited : AtRest 0 0
      (MqueueEvent.run (.new 1) (.attempt 0 receiveRequest patient) : World Unit Unit) :=
    ⟨rfl, rfl, rfl, rfl⟩
  have rests := exchanges_rest rounds waited wordLimit_pos
  rw [Nat.zero_add] at rests
  unfold worldAt stage
  rw [List.take_length]
  exact rests.generation_eq

/-- A receive is told to wait, the first send makes it satisfiable and publishes
that, and at the end of the run the observed generation is the current one
again, so that a subscription for it is entered. -/
def LooksUnchanged (events : List (MqueueEvent Unit Unit)) : Prop :=
  ∃ waiting answer,
    AttemptAt 1 events 0 0 receiveRequest (.wait waiting) ∧
    (worldAt 1 events 1).queue.ready waiting.operation = false ∧
    (worldAt 1 events 2).queue.ready waiting.operation = true ∧
    AttemptAt 1 events 1 1 sendRequest answer ∧ answer.publishes = true ∧
    BumpAt 1 events 2 1 ∧ CallAt 1 events 3 1 ∧ 3 < events.length ∧
    (worldAt 1 events events.length).queue.changeGeneration = waiting.observedGeneration ∧
    ((worldAt 1 events events.length).queue.subscribeChange waiting.observedGeneration ()).1 ≠ none

theorem waitedRun_looksUnchanged (rounds : Nat) (whole : 2 * (rounds + 1) % wordLimit = 0) :
    LooksUnchanged (waitedRun (rounds + 1)) := by
  have ended := waitedRun_generation (rounds + 1)
  rw [whole] at ended
  have entered : ((worldAt 1 (waitedRun (rounds + 1))
      (waitedRun (rounds + 1)).length).queue.subscribeChange 0 ()).1 ≠ none := by
    unfold MqueueInner.subscribeChange
    dsimp only
    rw [if_neg (fun moved => moved ended)]
    exact Option.some_ne_none _
  refine ⟨⟨.receive 0 none, 0, some 0⟩, _, ⟨patient, rfl, rfl, rfl⟩, rfl, rfl,
    ⟨patient, rfl, rfl, rfl⟩, rfl, ⟨rfl, rfl⟩, ⟨rfl, rfl⟩, ?_, ended, entered⟩
  exact Nat.le_add_left 4 _

/-- The first send makes the waiting receive satisfiable and is published; once
the generation has come round, a subscription for the observed one is entered as
if nothing had happened. -/
theorem full_round_looks_unchanged : LooksUnchanged (waitedRun 9223372036854775808) :=
  waitedRun_looksUnchanged 9223372036854775807 (by decide)

end Mqueue
end Carrick
