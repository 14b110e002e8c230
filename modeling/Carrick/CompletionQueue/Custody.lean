import Carrick.CompletionQueue.Queue

namespace Carrick
namespace CompletionQueue

open Foundation

/-!
# Custody of the queued records

Between the head and the tail the queue is a list of nodes with gaps: each gap
is a producer, or the consumer appending the stub, between its exchange and its
link store.  `Valid` says so, names who owns what before its exchange, and fixes
what the consumer knows at each of its accesses.
-/

/-- Someone has exchanged the tail and not stored the link yet. -/
def Pending (state : State) (before after : Nat) : Prop :=
  (∃ producer rest, state.producer producer = .exchanged before (after :: rest)) ∨
    after = stub ∧ ∃ head, state.consumer = some (.linkStub head before)

/-- What the consumer knows at its next access. -/
def Phase.Fits (queue : Queue) (nodes : List Nat) : Phase -> Prop
  | .accept => True
  | .loadHead => True
  | .loadStub => queue.head = stub
  | .passStub next => queue.head = stub ∧ queue.stubNext = next ∧ next ≠ 0
  | .loadLink head => queue.head = head ∧ head ≠ stub
  | .take head next => queue.head = head ∧ head ≠ stub ∧ queue.link head = next ∧ next ≠ 0
  | .loadTail head => queue.head = head ∧ head ≠ stub
  | .clearStub head => queue.head = head ∧ head ≠ stub ∧ stub ∉ nodes
  | .exchange head => queue.head = head ∧ head ≠ stub ∧ stub ∉ nodes ∧ queue.stubNext = 0
  | .linkStub head previous =>
    queue.head = head ∧ head ≠ stub ∧ Adjoins nodes previous stub ∧ queue.next previous = 0
  | .reload head => queue.head = head ∧ head ≠ stub ∧ stub ∈ nodes

/-- The nodes from the head to the tail, each once.  They include the records
whose link store is still to come. -/
structure Spans (queue : Queue) (nodes : List Nat) : Prop where
  initialized : queue.initialized = 2
  head : nodes.head? = some queue.head
  tail : nodes.getLast? = some queue.tail
  distinct : nodes.Nodup
  nonzero : 0 ∉ nodes

/-- The chains that producers own before their exchange: linked among
themselves, outside the queue and apart from each other. -/
structure ChainsOwned (state : State) (nodes : List Nat) : Prop where
  nonempty : ∀ producer chain, (state.producer producer).Owns chain -> chain ≠ []
  distinct : ∀ producer chain, (state.producer producer).Owns chain -> chain.Nodup
  outside : ∀ producer chain, (state.producer producer).Owns chain ->
    ∀ record ∈ chain, record ≠ 0 ∧ record ≠ stub ∧ record ∉ nodes
  joined : ∀ producer chain, (state.producer producer).Owns chain ->
    Linked 0 state.queue.next (fun _ _ => False) chain
  apart : ∀ first second chain other, (state.producer first).Owns chain ->
    (state.producer second).Owns other -> first ≠ second ->
    ∀ record ∈ chain, record ∉ other

/-- The producers between their exchange and their link store.  Each stands for
one gap in the list, and no gap has two of them. -/
structure GapsOwned (state : State) (nodes : List Nat) : Prop where
  placed : ∀ producer before chain, state.producer producer = .exchanged before chain ->
    chain ≠ [] ∧ before :: chain <:+: nodes ∧ state.queue.next before = 0
  single : ∀ first second before chain other,
    state.producer first = .exchanged before chain ->
    state.producer second = .exchanged before other -> first = second
  apart : ∀ producer before chain head,
    state.producer producer = .exchanged before chain ->
    state.consumer ≠ some (.linkStub head before)

structure Valid (state : State) (nodes : List Nat) : Prop where
  spans : Spans state.queue nodes
  custody : state.pushed = state.popped ++ nodes.filter (fun node => node ≠ stub)
  linked : Linked 0 state.queue.next (Pending state) nodes
  chains : ChainsOwned state nodes
  gaps : GapsOwned state nodes
  phase : ∀ phase, state.consumer = some phase -> phase.Fits state.queue nodes

/-! ## Links -/

section Links

variable {queue : Queue} {node other value : Nat}

theorem next_record (record : node ≠ stub) : queue.next node = queue.link node := by
  unfold Queue.next
  rw [if_neg record]

theorem next_stub : queue.next stub = queue.stubNext := by
  unfold Queue.next
  rw [if_pos rfl]

theorem next_setNext_self : (queue.setNext node value).next node = value := by
  unfold Queue.setNext Queue.next
  by_cases atStub : node = stub
  · rw [if_pos atStub, if_pos atStub]
  · rw [if_neg atStub, if_neg atStub]
    exact Function.update_self node value queue.link

theorem next_setNext_other (different : other ≠ node) :
    (queue.setNext node value).next other = queue.next other := by
  unfold Queue.setNext Queue.next
  by_cases atStub : node = stub
  · rw [if_pos atStub]
    have record : other ≠ stub := fun same => different (same.trans atStub.symm)
    rw [if_neg record, if_neg record]
  rw [if_neg atStub]
  by_cases otherStub : other = stub
  · rw [if_pos otherStub, if_pos otherStub]
  · rw [if_neg otherStub, if_neg otherStub]
    exact Function.update_of_ne different value queue.link

@[simp] theorem setNext_head : (queue.setNext node value).head = queue.head := by
  unfold Queue.setNext
  split_ifs
  · rfl
  · rfl

@[simp] theorem setNext_tail : (queue.setNext node value).tail = queue.tail := by
  unfold Queue.setNext
  split_ifs
  · rfl
  · rfl

@[simp] theorem setNext_initialized :
    (queue.setNext node value).initialized = queue.initialized := by
  unfold Queue.setNext
  split_ifs
  · rfl
  · rfl

theorem linkChain_linked (link : Nat -> Nat) {chain : List Nat} (distinct : chain.Nodup) :
    Linked 0 (linkChain link chain) (fun _ _ => False) chain := by
  induction chain with
  | nil => trivial
  | cons first rest ih =>
    have fewer := List.nodup_cons.mp distinct
    cases rest with
    | nil => exact Function.update_self first 0 link
    | cons second more =>
      have here : linkChain link (first :: second :: more) first = second := by
        unfold linkChain
        rw [Function.update_self]
      refine ⟨.inl here, ?_⟩
      refine (ih fewer.2).weaken ?_ (fun _ _ _ wrong => wrong)
      intro node listed
      have different : node ≠ first := by
        rintro rfl
        exact fewer.1 listed
      show Function.update (linkChain link (second :: more)) first second node = _
      rw [Function.update_of_ne different]

theorem linkChain_outside (link : Nat -> Nat) {chain : List Nat} {node : Nat}
    (outside : node ∉ chain) : linkChain link chain node = link node := by
  induction chain with
  | nil => rfl
  | cons first rest ih =>
    have different : node ≠ first := fun same => outside (by simp [same])
    have later : node ∉ rest := fun listed => outside (List.mem_cons_of_mem _ listed)
    cases rest with
    | nil => exact Function.update_of_ne different 0 link
    | cons second more =>
      exact (Function.update_of_ne different second _).trans (ih later)

end Links

/-! ## Places in the queue -/

section Places

variable {state : State} {nodes : List Nat}

theorem Spans.mem_head {queue : Queue} (spans : Spans queue nodes) : queue.head ∈ nodes :=
  List.mem_of_mem_head? spans.head

theorem Spans.head_cons {queue : Queue} (spans : Spans queue nodes) :
    ∃ rest, nodes = queue.head :: rest := by
  cases nodes with
  | nil => cases spans.head
  | cons first rest =>
    have same : first = queue.head := by simpa using spans.head
    exact ⟨rest, by rw [same]⟩

theorem Spans.tail_append {queue : Queue} (spans : Spans queue nodes) :
    ∃ front, nodes = front ++ [queue.tail] := by
  rcases List.getLast?_eq_some_iff.mp spans.tail with ⟨front, split⟩
  exact ⟨front, split⟩

theorem GapsOwned.follows (gaps : GapsOwned state nodes) {producer before : Nat} {chain : List Nat}
    (exchanged : state.producer producer = .exchanged before chain) :
    ∃ after rest, chain = after :: rest ∧ Adjoins nodes before after := by
  rcases gaps.placed producer before chain exchanged with ⟨nonempty, inside, _⟩
  cases chain with
  | nil => exact absurd rfl nonempty
  | cons after rest =>
    refine ⟨after, rest, rfl, ?_⟩
    exact (List.prefix_append [before, after] rest).isInfix.trans inside

theorem adjoins_mem {before after : Nat} (follows : Adjoins nodes before after) :
    before ∈ nodes ∧ after ∈ nodes :=
  ⟨follows.subset (by simp), follows.subset (by simp)⟩

theorem Spans.alone {queue : Queue} (spans : Spans queue nodes) (same : queue.head = queue.tail) :
    nodes = [queue.head] := by
  rcases spans.head_cons with ⟨rest, split⟩
  cases rest with
  | nil => exact split
  | cons second more =>
    have last := spans.tail
    rw [split, List.getLast?_cons_cons, <- same] at last
    have distinct := spans.distinct
    rw [split] at distinct
    exact absurd (List.mem_of_getLast? last) (List.nodup_cons.mp distinct).1

/-- The consumer's facts depend on the head, the stub and the links of the
queued nodes. -/
theorem Phase.Fits.congr {queue later : Queue} {phase : Phase} (fits : phase.Fits queue nodes)
    (spans : Spans queue nodes) (head : later.head = queue.head)
    (stubNext : later.stubNext = queue.stubNext)
    (links : ∀ node ∈ nodes, later.next node = queue.next node) :
    phase.Fits later nodes := by
  cases phase with
  | accept => trivial
  | loadHead => trivial
  | loadStub => exact head.trans fits
  | passStub next => exact ⟨head.trans fits.1, stubNext.trans fits.2.1, fits.2.2⟩
  | loadLink first => exact ⟨head.trans fits.1, fits.2⟩
  | take first next =>
    refine ⟨head.trans fits.1, fits.2.1, ?_, fits.2.2.2⟩
    have same := links first (fits.1 ▸ spans.mem_head)
    rw [next_record fits.2.1, next_record fits.2.1] at same
    exact same.trans fits.2.2.1
  | loadTail first => exact ⟨head.trans fits.1, fits.2⟩
  | clearStub first => exact ⟨head.trans fits.1, fits.2⟩
  | exchange first =>
    exact ⟨head.trans fits.1, fits.2.1, fits.2.2.1, stubNext.trans fits.2.2.2⟩
  | linkStub first previous =>
    exact ⟨head.trans fits.1, fits.2.1, fits.2.2.1,
      (links previous (adjoins_mem fits.2.2.1).1).trans fits.2.2.2⟩
  | reload first => exact ⟨head.trans fits.1, fits.2⟩

end Places

/-! ## The steps of the producers -/

section Producers

variable {state : State} {nodes : List Nat}

theorem Valid.outside_of_free (valid : Valid state nodes) {record : Nat} (free : state.Free record)
    (isRecord : record ≠ stub) : record ∉ nodes := by
  intro listed
  have counted := free.1
  rw [valid.custody, List.count_append] at counted
  have queued : 0 < (nodes.filter (fun node => node ≠ stub)).count record := by
    rw [List.count_pos_iff, List.mem_filter]
    exact ⟨listed, by simpa using isRecord⟩
  omega

theorem setProducer_self (state : State) (producer : Nat) (phase : Producer) :
    (state.setProducer producer phase).producer producer = phase := by
  show Function.update state.producer producer phase producer = phase
  rw [Function.update_self]

theorem setProducer_other (state : State) {producer other : Nat} (different : other ≠ producer)
    (phase : Producer) : (state.setProducer producer phase).producer other = state.producer other := by
  show Function.update state.producer producer phase other = _
  rw [Function.update_of_ne different]

theorem Pending.setProducer {later : State} {producer before after : Nat} {phase : Producer}
    (pending : Pending state before after) (producers : later.producer = state.producer)
    (consumer : later.consumer = state.consumer)
    (outside : ∀ previous chain, state.producer producer ≠ .exchanged previous chain) :
    Pending (later.setProducer producer phase) before after := by
  rcases pending with ⟨other, rest, exchanged⟩ | ⟨atStub, head, running⟩
  · have different : other ≠ producer := by
      rintro rfl
      exact outside _ _ exchanged
    refine .inl ⟨other, rest, ?_⟩
    rw [setProducer_other later different, producers]
    exact exchanged
  · exact .inr ⟨atStub, head, consumer.trans running⟩

/-- A producer changed in place: who owns what is decided apart from it. -/
theorem setProducer_cases (state : State) (producer other : Nat) (phase : Producer) :
    other = producer ∧ (state.setProducer producer phase).producer other = phase ∨
      other ≠ producer ∧
        (state.setProducer producer phase).producer other = state.producer other := by
  by_cases same : other = producer
  · subst same
    exact .inl ⟨rfl, setProducer_self state other phase⟩
  · exact .inr ⟨same, setProducer_other state same phase⟩

end Producers

end CompletionQueue
end Carrick
