import Mathlib.Logic.Function.Basic
import Carrick.Foundation.GapList
import Carrick.Foundation.Run

namespace Carrick
namespace CompletionQueue

open Foundation

/-!
# The completion queue

An intrusive queue with many producers and one consumer.  A producer exchanges
the tail for the last record of its chain and then stores the link from the node
that was the tail; the consumer follows the links from the head.  A stub stands
in for a record when the queue is empty, and the consumer appends it again when
it takes the last record.

Each atomic access is one step.  The records' links are the words that the
`load`, `store` and `link` closures of the code reach; zero is no record.
-/

/-- `STUB`, which is no record. -/
def stub : Nat := 4294967295

theorem stub_ne_zero : stub ≠ 0 := by decide

structure Queue where
  initialized : Nat
  head : Nat
  tail : Nat
  stubNext : Nat
  link : Nat -> Nat

namespace Queue

/-- The link of a node, which the queue itself keeps for the stub. -/
def next (queue : Queue) (node : Nat) : Nat :=
  if node = stub then queue.stubNext else queue.link node

def setNext (queue : Queue) (node value : Nat) : Queue :=
  if node = stub then { queue with stubNext := value }
  else { queue with link := Function.update queue.link node value }

end Queue

/-- The links of a chain whose owner has joined its records. -/
def linkChain (link : Nat -> Nat) : List Nat -> Nat -> Nat
  | [] => link
  | [last] => Function.update link last 0
  | first :: second :: rest =>
    Function.update (linkChain link (second :: rest)) first second

/-! ## Producers -/

/-- Where a producer is in `push`: the next access is the load of `initialized`,
the exchange of the tail, or the store of the link. -/
inductive Producer where
  | idle
  | entering (chain : List Nat)
  | admitted (chain : List Nat)
  | exchanged (previous : Nat) (chain : List Nat)

/-- The chain that a producer owns before its exchange. -/
def Producer.Owns : Producer -> List Nat -> Prop
  | .entering chain, owned => owned = chain
  | .admitted chain, owned => owned = chain
  | _, _ => False

/-! ## The consumer -/

/-- The next access of `pop`, with the values that the call has loaded so far.
-/
inductive Phase where
  | accept
  | loadHead
  | loadStub
  | passStub (next : Nat)
  | loadLink (head : Nat)
  | take (head next : Nat)
  | loadTail (head : Nat)
  | clearStub (head : Nat)
  | exchange (head : Nat)
  | linkStub (head previous : Nat)
  | reload (head : Nat)

/-- A call goes on to its next access, or returns. -/
inductive Outcome where
  | goes (phase : Phase)
  | answers (result : Option Nat)

/-- One access of `pop`. -/
def access (queue : Queue) : Phase -> Queue × Outcome
  | .accept =>
    (queue, if queue.initialized ≠ 2 then .answers none else .goes .loadHead)
  | .loadHead =>
    (queue, if queue.head = stub then .goes .loadStub else .goes (.loadLink queue.head))
  | .loadStub =>
    (queue, if queue.stubNext = 0 then .answers none else .goes (.passStub queue.stubNext))
  | .passStub next => ({ queue with head := next }, .goes (.loadLink next))
  | .loadLink head =>
    (queue, if queue.link head ≠ 0 then .goes (.take head (queue.link head))
      else .goes (.loadTail head))
  | .take head next => ({ queue with head := next }, .answers (some head))
  | .loadTail head =>
    (queue, if head ≠ queue.tail then .answers none else .goes (.clearStub head))
  | .clearStub head => ({ queue with stubNext := 0 }, .goes (.exchange head))
  | .exchange head => ({ queue with tail := stub }, .goes (.linkStub head queue.tail))
  | .linkStub head previous => (queue.setNext previous stub, .goes (.reload head))
  | .reload head =>
    (queue, if queue.link head = 0 then .answers none else .goes (.take head (queue.link head)))

/-! ## The system

`pushed` and `popped` are histories: the records in the order of the exchanges
that queued them, each chain in its order, and the records that `pop` returned. -/

structure State where
  queue : Queue
  producer : Nat -> Producer
  consumer : Option Phase
  pushed : List Nat
  popped : List Nat

namespace State

/-- Nobody else has the record: it is not queued, and no call of `push` is about
to queue it. -/
def Free (state : State) (record : Nat) : Prop :=
  state.pushed.count record = state.popped.count record ∧
    ∀ producer chain, (state.producer producer).Owns chain -> record ∉ chain

/-- A chain that a caller may push: nonempty, without repetition, of records
that nobody else holds. -/
structure Owned (state : State) (chain : List Nat) : Prop where
  nonempty : chain ≠ []
  distinct : chain.Nodup
  records : ∀ record ∈ chain, record ≠ 0 ∧ record ≠ stub
  free : ∀ record ∈ chain, state.Free record

def setProducer (state : State) (producer : Nat) (phase : Producer) : State :=
  { state with producer := Function.update state.producer producer phase }

end State

inductive Event where
  | own (producer : Nat) (chain : List Nat)
  | accept (producer : Nat)
  | exchange (producer : Nat)
  | link (producer : Nat)
  | call
  | access
  | answer (result : Option Nat)
  deriving DecidableEq

/-- One step of one party.  `own` is the caller joining the links of its chain,
which nobody else reads, and calling `push`. -/
inductive Step : State -> Event -> State -> Prop
  | own {state : State} {producer : Nat} {chain : List Nat}
      (idle : state.producer producer = .idle) (owned : state.Owned chain) :
      Step state (.own producer chain)
        ({ state with queue :=
            { state.queue with link := linkChain state.queue.link chain } }.setProducer producer
          (.entering chain))
  | accept {state : State} {producer : Nat} {chain : List Nat}
      (entering : state.producer producer = .entering chain)
      (initialized : state.queue.initialized = 2) :
      Step state (.accept producer) (state.setProducer producer (.admitted chain))
  | exchange {state : State} {producer last : Nat} {chain : List Nat}
      (admitted : state.producer producer = .admitted chain) (ends : chain.getLast? = some last) :
      Step state (.exchange producer)
        ({ state with
            queue := { state.queue with tail := last },
            pushed := state.pushed ++ chain }.setProducer producer
          (.exchanged state.queue.tail chain))
  | link {state : State} {producer previous first : Nat} {rest : List Nat}
      (exchanged : state.producer producer = .exchanged previous (first :: rest)) :
      Step state (.link producer)
        ({ state with queue := state.queue.setNext previous first }.setProducer producer .idle)
  | call {state : State} (idle : state.consumer = none) :
      Step state .call { state with consumer := some .accept }
  | access {state : State} {phase later : Phase} {queue : Queue}
      (running : state.consumer = some phase)
      (goes : access state.queue phase = (queue, .goes later)) :
      Step state .access { state with queue := queue, consumer := some later }
  | answer {state : State} {phase : Phase} {queue : Queue} {result : Option Nat}
      (running : state.consumer = some phase)
      (answers : access state.queue phase = (queue, .answers result)) :
      Step state (.answer result)
        { state with queue := queue, consumer := none, popped := state.popped ++ result.toList }

/-- The queue after `initialize`, with nobody in it. -/
def Starts (state : State) : Prop :=
  state.queue.initialized = 2 ∧ state.queue.head = stub ∧ state.queue.tail = stub ∧
    state.queue.stubNext = 0 ∧ (∀ producer, state.producer producer = .idle) ∧
    state.consumer = none ∧ state.pushed = [] ∧ state.popped = []

end CompletionQueue
end Carrick
