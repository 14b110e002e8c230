import Carrick.Foundation.Stages
import Carrick.Foundation.Word

namespace Carrick
namespace Mqueue

open Foundation

/-!
# A message queue under its lock

One attempt to send or to receive runs under the lock of the queue state.  It
completes, or finds that it has to wait and then reads the change generation
before the lock is given up.  An attempt that changed the queue publishes the
change later, outside the lock: the generation moves on and the listeners are
called.

What lies outside the queue enters an attempt as its circumstances: whether
the caller was interrupted, the deadline has passed, the destination was
admitted and the copy went through.
-/

universe u v

/-- A message carries the number of its send beside the code's own sequence
number, which wraps. -/
structure MqueueMessage where
  prio : Nat
  seq : Nat
  payload : List UInt8
  stamp : Nat
deriving DecidableEq

structure MqueueState (Notify : Type u) where
  messages : List MqueueMessage
  maxMsg : Nat
  nextSeq : Nat
  notify : Option Notify
  /-- The sends that completed so far. -/
  sent : Nat

/-- A queue with its listeners, and the flags of the receive waiters that were
ever made. -/
structure MqueueInner (Notify : Type u) (Callback : Type v) where
  state : MqueueState Notify
  changeGeneration : Nat
  changeListeners : List (Nat × Callback)
  nextChangeListener : Nat
  blockedReceivers : Nat
  waiters : List Bool

inductive BlockingMqueueOperation where
  | send (payload : List UInt8) (priority : Nat)
  | receive (buffer : Nat) (priority : Option Nat)

/-- A request that may wait, with the waiter it made when it first did and the
generation it has to see change. -/
structure BlockingMqueue where
  operation : BlockingMqueueOperation
  observedGeneration : Nat
  receiveWaiter : Option Nat

structure Circumstances where
  interrupted : Bool
  nonblock : Bool
  expired : Bool
  refused : Bool
  faulted : Bool

inductive Errno where
  | eintr
  | eagain
  | etimedout
  | efault
deriving DecidableEq, Repr

inductive Outcome where
  | errno (errno : Errno)
  | refused
  | returned (value : Nat)
deriving DecidableEq, Repr

/-- What a completed attempt leaves to its caller: the outcome, the notification
to deliver, the message that was taken and whether the change is published. -/
structure Completion (Notify : Type u) where
  outcome : Outcome
  notify : Option Notify
  taken : Option MqueueMessage
  publishes : Bool

inductive BlockingMqueueStep (Notify : Type u) where
  | done (completion : Completion Notify)
  | wait (request : BlockingMqueue)

variable {Notify : Type u} {Callback : Type v}

def BlockingMqueueStep.quiet (outcome : Outcome) : BlockingMqueueStep Notify :=
  .done { outcome, notify := none, taken := none, publishes := false }

/-- The most bytes that are copied out under one admission. -/
def copyoutMaxBytes : Nat := 4096

namespace MqueueInner

def new (maxMsg : Nat) : MqueueInner Notify Callback where
  state := { messages := [], maxMsg, nextSeq := 0, notify := none, sent := 0 }
  changeGeneration := 0
  changeListeners := []
  nextChangeListener := 1
  blockedReceivers := 0
  waiters := []

/-- A waiter is counted out once, however often it is settled. -/
def settleWaiter (queue : MqueueInner Notify Callback) (waiter : Nat) :
    MqueueInner Notify Callback :=
  if queue.waiters[waiter]? = some true then
    { queue with
      waiters := queue.waiters.set waiter false
      blockedReceivers := queue.blockedReceivers - 1 }
  else queue

def settle (queue : MqueueInner Notify Callback) (waiter : Option Nat) :
    MqueueInner Notify Callback :=
  waiter.elim queue queue.settleWaiter

def setMessages (queue : MqueueInner Notify Callback) (messages : List MqueueMessage) :
    MqueueInner Notify Callback :=
  { queue with state := { queue.state with messages } }

/-- The queue can serve the operation now. -/
def ready (queue : MqueueInner Notify Callback) : BlockingMqueueOperation -> Bool
  | .send _ _ => decide (queue.state.messages.length < queue.state.maxMsg)
  | .receive _ _ => !queue.state.messages.isEmpty

/-- An attempt that is not ready answers at once or waits, on the generation
that it reads under the lock. -/
def defer (queue : MqueueInner Notify Callback) (request : BlockingMqueue)
    (circumstances : Circumstances) : BlockingMqueueStep Notify × MqueueInner Notify Callback :=
  let observed := { request with observedGeneration := queue.changeGeneration }
  if circumstances.nonblock then (.quiet (.errno .eagain), queue)
  else if circumstances.expired then
    (.quiet (.errno .etimedout), queue.settle request.receiveWaiter)
  else
    match request.operation, request.receiveWaiter with
    | .receive _ _, none =>
      (.wait { observed with receiveWaiter := some queue.waiters.length },
        { queue with
          waiters := queue.waiters ++ [true]
          blockedReceivers := queue.blockedReceivers + 1 })
    | _, _ => (.wait observed, queue)

/-- Where a message of the priority goes: before the first of a lower one. -/
def position (messages : List MqueueMessage) (priority : Nat) : Nat :=
  messages.findIdx (fun message => decide (message.prio < priority))

def send (queue : MqueueInner Notify Callback) (payload : List UInt8) (priority : Nat) :
    BlockingMqueueStep Notify × MqueueInner Notify Callback :=
  let state := queue.state
  let takes := state.messages.isEmpty && queue.blockedReceivers == 0
  let message : MqueueMessage :=
    { prio := priority, seq := state.nextSeq, payload, stamp := state.sent }
  (.done { outcome := .returned 0, notify := if takes then state.notify else none,
           taken := none, publishes := true },
    { queue with
      state := { state with
        messages := state.messages.insertIdx (position state.messages priority) message
        nextSeq := (state.nextSeq + 1) % wordLimit
        notify := if takes then none else state.notify
        sent := state.sent + 1 } })

/-- The length of a receive's output: the payload, and the priority when it is
asked for. -/
def outputLen (message : MqueueMessage) (priority : Option Nat) : Nat :=
  message.payload.length + if priority.isSome then 4 else 0

/-- A refused admission keeps the message; a failed copy does not. -/
def receive (queue : MqueueInner Notify Callback) (waiter : Option Nat) (priority : Option Nat)
    (circumstances : Circumstances) : BlockingMqueueStep Notify × MqueueInner Notify Callback :=
  match queue.state.messages with
  | [] => (.quiet (.errno .eagain), queue)
  | message :: rest =>
    if outputLen message priority <= copyoutMaxBytes ∧ circumstances.refused = true then
      (.quiet .refused, queue.settle waiter)
    else
      (.done { outcome := if circumstances.faulted then .errno .efault
                 else .returned message.payload.length,
               notify := none, taken := some message, publishes := true },
        (queue.settle waiter).setMessages rest)

/-- The locked section of an attempt. -/
def tryComplete (queue : MqueueInner Notify Callback) (request : BlockingMqueue)
    (circumstances : Circumstances) : BlockingMqueueStep Notify × MqueueInner Notify Callback :=
  if circumstances.interrupted then
    (.quiet (.errno .eintr), queue.settle request.receiveWaiter)
  else if queue.ready request.operation = false then queue.defer request circumstances
  else
    match request.operation with
    | .send payload priority => queue.send payload priority
    | .receive _ priority => queue.receive request.receiveWaiter priority circumstances

/-- The first half of `publish_change`. -/
def bumpGeneration (queue : MqueueInner Notify Callback) : MqueueInner Notify Callback :=
  { queue with changeGeneration := (queue.changeGeneration + 1) % wordLimit }

/-- The callbacks that the second half of `publish_change` collects and calls. -/
def callbacks (queue : MqueueInner Notify Callback) : List Callback :=
  queue.changeListeners.map (fun listener => listener.2)

/-- A listener is entered, and taken out again when the generation has moved on.
`none` is the answer that the change is already there. -/
def subscribeChange (queue : MqueueInner Notify Callback) (expected : Nat) (callback : Callback) :
    Option Nat × MqueueInner Notify Callback :=
  let id := queue.nextChangeListener
  let others := queue.changeListeners.filter (fun listener => listener.1 != id)
  let counted := { queue with nextChangeListener := (id + 1) % wordLimit }
  if queue.changeGeneration ≠ expected then (none, { counted with changeListeners := others })
  else (some id, { counted with changeListeners := (id, callback) :: others })

/-- Dropping a subscription takes its listener out. -/
def unsubscribe (queue : MqueueInner Notify Callback) (id : Nat) : MqueueInner Notify Callback :=
  { queue with
    changeListeners := queue.changeListeners.filter (fun listener => listener.1 != id) }

end MqueueInner

theorem wrapped_ne {start steps : Nat} (valid : start < wordLimit) (positive : 1 <= steps)
    (few : steps < wordLimit) : (start + steps) % wordLimit ≠ start := by
  by_cases inside : start + steps < wordLimit
  · rw [Nat.mod_eq_of_lt inside]
    omega
  · rw [Nat.mod_eq_sub_mod (Nat.le_of_not_lt inside), Nat.mod_eq_of_lt (by omega)]
    omega

/-! ## The order of the messages -/

/-- The message leaves the queue before the other: it has the higher priority,
or the same one and was sent earlier. -/
def MqueueMessage.Before (message other : MqueueMessage) : Prop :=
  other.prio < message.prio ∨ message.prio = other.prio ∧ message.stamp < other.stamp

/-- The messages stand in the order in which they leave. -/
def Ordered (messages : List MqueueMessage) : Prop :=
  messages.Pairwise MqueueMessage.Before

theorem insertIdx_position_cons (head new : MqueueMessage) (rest : List MqueueMessage) :
    (head :: rest).insertIdx (MqueueInner.position (head :: rest) new.prio) new =
      if head.prio < new.prio then new :: head :: rest
      else head :: rest.insertIdx (MqueueInner.position rest new.prio) new := by
  unfold MqueueInner.position
  rw [List.findIdx_cons]
  by_cases lower : head.prio < new.prio
  · rw [decide_eq_true lower, if_pos lower]
    rfl
  · rw [decide_eq_false lower, if_neg lower]
    rfl

theorem mem_insert_position {new message : MqueueMessage} {messages : List MqueueMessage} :
    message ∈ messages.insertIdx (MqueueInner.position messages new.prio) new <->
      message = new ∨ message ∈ messages := by
  induction messages with
  | nil => exact List.mem_cons
  | cons head rest ih =>
    rw [insertIdx_position_cons]
    split
    · exact List.mem_cons
    · rw [List.mem_cons, ih, List.mem_cons]
      exact or_left_comm

theorem length_insert_position (new : MqueueMessage) (messages : List MqueueMessage) :
    (messages.insertIdx (MqueueInner.position messages new.prio) new).length =
      messages.length + 1 :=
  List.length_insertIdx_of_le_length List.findIdx_le_length new

/-- A new message goes behind those of its priority and before the lower ones. -/
theorem Ordered.insert {messages : List MqueueMessage} {new : MqueueMessage}
    (ordered : Ordered messages)
    (newest : ∀ message ∈ messages, message.stamp < new.stamp) :
    Ordered (messages.insertIdx (MqueueInner.position messages new.prio) new) := by
  induction messages with
  | nil => exact List.pairwise_singleton _ _
  | cons head rest ih =>
    rcases List.pairwise_cons.mp ordered with ⟨leads, behind⟩
    rw [insertIdx_position_cons]
    by_cases lower : head.prio < new.prio
    · rw [if_pos lower]
      refine List.pairwise_cons.mpr ⟨?_, ordered⟩
      intro other member
      rcases List.mem_cons.mp member with rfl | later
      · exact .inl lower
      refine .inl ?_
      rcases leads other later with below | ⟨same, _⟩
      · exact Nat.lt_trans below lower
      · rw [<- same]
        exact lower
    rw [if_neg lower]
    refine List.pairwise_cons.mpr ⟨?_, ?_⟩
    · intro other member
      rcases mem_insert_position.mp member with rfl | later
      · rcases Nat.lt_or_eq_of_le (Nat.le_of_not_lt lower) with less | same
        · exact .inl less
        · exact .inr ⟨same.symm, newest head List.mem_cons_self⟩
      · exact leads other later
    · exact ih behind
        (fun message member => newest message (List.mem_cons_of_mem _ member))

/-! ## What an attempt can do -/

/-- Nothing of the publication side moved. -/
structure SamePublication (before after : MqueueInner Notify Callback) : Prop where
  generation : after.changeGeneration = before.changeGeneration
  listeners : after.changeListeners = before.changeListeners
  nextListener : after.nextChangeListener = before.nextChangeListener

/-- The outcomes of a locked section. -/
inductive Attempted (queue : MqueueInner Notify Callback) (request : BlockingMqueue) :
    BlockingMqueueStep Notify × MqueueInner Notify Callback -> Prop
  /-- It answers and leaves the messages alone. -/
  | answers (outcome : Outcome) (after : MqueueInner Notify Callback)
      (same : after.state = queue.state) (published : SamePublication queue after) :
      Attempted queue request (.quiet outcome, after)
  /-- It waits for the generation it has read. -/
  | waits (waiting : BlockingMqueue) (after : MqueueInner Notify Callback)
      (same : after.state = queue.state) (published : SamePublication queue after)
      (unready : queue.ready request.operation = false)
      (operation : waiting.operation = request.operation)
      (observed : waiting.observedGeneration = queue.changeGeneration) :
      Attempted queue request (.wait waiting, after)
  /-- It enters a message. -/
  | sends (payload : List UInt8) (priority : Nat)
      (room : queue.state.messages.length < queue.state.maxMsg) :
      Attempted queue request (queue.send payload priority)
  /-- It takes the first message. -/
  | receives (message : MqueueMessage) (rest : List MqueueMessage)
      (completion : Completion Notify) (after : MqueueInner Notify Callback)
      (first : queue.state.messages = message :: rest) (taken : completion.taken = some message)
      (publishes : completion.publishes = true)
      (state : after.state = { queue.state with messages := rest })
      (published : SamePublication queue after) :
      Attempted queue request (.done completion, after)

theorem settle_same (queue : MqueueInner Notify Callback) (waiter : Option Nat) :
    (queue.settle waiter).state = queue.state ∧ SamePublication queue (queue.settle waiter) := by
  cases waiter with
  | none => exact ⟨rfl, rfl, rfl, rfl⟩
  | some waiter =>
    unfold MqueueInner.settle MqueueInner.settleWaiter
    rw [Option.elim_some]
    split
    · exact ⟨rfl, rfl, rfl, rfl⟩
    · exact ⟨rfl, rfl, rfl, rfl⟩

theorem defer_attempted {queue : MqueueInner Notify Callback} {request : BlockingMqueue}
    (circumstances : Circumstances) (unready : queue.ready request.operation = false) :
    Attempted queue request (queue.defer request circumstances) := by
  unfold MqueueInner.defer
  dsimp only
  split
  · exact .answers _ _ rfl ⟨rfl, rfl, rfl⟩
  split
  · have settled := settle_same queue request.receiveWaiter
    exact .answers _ _ settled.1 settled.2
  · split
    · exact .waits _ _ rfl ⟨rfl, rfl, rfl⟩ unready rfl rfl
    · exact .waits _ _ rfl ⟨rfl, rfl, rfl⟩ unready rfl rfl

theorem receive_attempted (queue : MqueueInner Notify Callback) (request : BlockingMqueue)
    (priority : Option Nat) (circumstances : Circumstances) :
    Attempted queue request
      (queue.receive request.receiveWaiter priority circumstances) := by
  have settled := settle_same queue request.receiveWaiter
  unfold MqueueInner.receive
  split
  · exact .answers _ _ rfl ⟨rfl, rfl, rfl⟩
  rename_i message rest first
  split
  · exact .answers _ _ settled.1 settled.2
  · refine .receives message rest _ _ first rfl rfl ?_ ?_
    · unfold MqueueInner.setMessages
      rw [settled.1]
    · exact ⟨settled.2.generation, settled.2.listeners, settled.2.nextListener⟩

theorem tryComplete_attempted (queue : MqueueInner Notify Callback) (request : BlockingMqueue)
    (circumstances : Circumstances) :
    Attempted queue request (queue.tryComplete request circumstances) := by
  unfold MqueueInner.tryComplete
  split
  · have settled := settle_same queue request.receiveWaiter
    exact .answers _ _ settled.1 settled.2
  split
  · rename_i unready
    exact defer_attempted circumstances unready
  rename_i ready
  cases operation : request.operation with
  | send payload priority =>
    rw [operation, Bool.not_eq_false] at ready
    exact .sends payload priority (of_decide_eq_true ready)
  | receive buffer priority => exact receive_attempted queue request priority circumstances

end Mqueue
end Carrick
