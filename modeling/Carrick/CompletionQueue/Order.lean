import Mathlib.Logic.Relation
import Carrick.CompletionQueue.Steps

namespace Carrick
namespace CompletionQueue

open Foundation Relation

/-!
# What comes out of the completion queue

Records come out in the order of the exchanges, each one once and not before its
producer linked it.  A pop that returns nothing met an empty queue or a gap right
behind the head, and once the producers have left, pops by the consumer return
everything that is queued.
-/

/-- Some list of nodes spans the queue. -/
def Custody (state : State) : Prop :=
  ∃ nodes, Valid state nodes

theorem Custody.answer {state : State} {phase : Phase} {queue : Queue} {result : Option Nat}
    (custody : Custody state) (running : state.consumer = some phase)
    (answers : access state.queue phase = (queue, .answers result)) :
    Custody { state with queue := queue, consumer := none,
                         popped := state.popped ++ result.toList } := by
  rcases custody with ⟨nodes, valid⟩
  have laterApart : ∀ head previous,
      (none : Option Phase) ≠ some (.linkStub head previous) := nofun
  have noPhase : ∀ (fits : Phase -> Prop) phase, (none : Option Phase) = some phase ->
      fits phase := by
    intro fits later wrong
    cases wrong
  cases result with
  | none =>
    have apart : ∀ head previous, phase ≠ .linkStub head previous := by
      rintro head previous rfl
      cases answers
    refine ⟨nodes, valid.reads (answers_none answers) rfl rfl (List.append_nil state.popped)
      (consumer_apart running apart) laterApart (noPhase _)⟩
  | some record =>
    rcases answers_some answers with ⟨next, rfl, rfl⟩
    have fits := valid.phase _ running
    have stored : state.queue.next state.queue.head = next := by
      rw [fits.1, next_record fits.2.1, fits.2.2.1]
    refine ⟨nodes.tail, valid.dropHead (by rw [stored]; exact fits.2.2.2) ?_ rfl rfl ?_
      (consumer_apart running (fun _ _ wrong => by cases wrong)) laterApart (noPhase _)⟩
    · rw [stored]
    have isRecord : [state.queue.head].filter (fun node => node ≠ stub) = [record] := by
      rw [fits.1]
      exact List.filter_eq_self.mpr (by simpa using fits.2.1)
    rw [isRecord]
    rfl

theorem Custody.step {before after : State} {event : Event} (custody : Custody before)
    (taken : Step before event after) : Custody after := by
  rcases custody with ⟨nodes, valid⟩
  cases taken with
  | own idle owned => exact ⟨nodes, valid.own idle owned⟩
  | accept entering initialized => exact ⟨nodes, valid.accept entering⟩
  | exchange admitted ends => exact ⟨_, valid.exchange admitted ends⟩
  | link exchanged => exact ⟨nodes, valid.link exchanged⟩
  | call idle => exact ⟨nodes, valid.call idle⟩
  | access running goes => exact valid.access running goes
  | answer running answers => exact Custody.answer ⟨nodes, valid⟩ running answers

theorem Starts.custody {state : State} (starts : Starts state) : Custody state := by
  rcases starts with ⟨initialized, head, tail, stubNext, idle, waiting, pushed, popped⟩
  have unowned : ∀ producer chain, ¬ (state.producer producer).Owns chain := by
    intro producer chain owning
    rw [idle producer] at owning
    exact owning
  have settled : ∀ producer before chain,
      state.producer producer ≠ .exchanged before chain := by
    intro producer before chain wrong
    rw [idle producer] at wrong
    cases wrong
  refine ⟨[stub], ⟨⟨initialized, ?_, ?_, by simp, ?_⟩, ?_, ?_, ⟨?_, ?_, ?_, ?_, ?_⟩,
    ⟨?_, ?_, ?_⟩, ?_⟩⟩
  · rw [head]
    rfl
  · rw [tail]
    rfl
  · intro listed
    exact stub_ne_zero (List.mem_singleton.mp listed).symm
  · rw [pushed, popped]
    simp
  · show state.queue.next stub = 0
    rw [next_stub]
    exact stubNext
  · intro producer chain owning
    exact absurd owning (unowned producer chain)
  · intro producer chain owning
    exact absurd owning (unowned producer chain)
  · intro producer chain owning
    exact absurd owning (unowned producer chain)
  · intro producer chain owning
    exact absurd owning (unowned producer chain)
  · intro first second chain other owning
    exact absurd owning (unowned first chain)
  · intro producer before chain exchanged
    exact absurd exchanged (settled producer before chain)
  · intro first second before chain other exchanged
    exact absurd exchanged (settled first before chain)
  · intro producer before chain head exchanged
    exact absurd exchanged (settled producer before chain)
  · intro phase running
    rw [waiting] at running
    cases running

theorem custody_of_run {history : List Event} {state : State} (run : Run Starts Step history state) :
    Custody state :=
  run.state_invariant Custody (fun _ starts => starts.custody)
    (fun _ _ _ custody taken => custody.step taken)

/-! ## Order and visibility -/

theorem Valid.popped_prefix {state : State} {nodes : List Nat} (valid : Valid state nodes) :
    state.popped <+: state.pushed := by
  rw [valid.custody]
  exact List.prefix_append state.popped _

/-- A record that is returned is linked by its producer, and nobody is about to
store its own link. -/
theorem Valid.answer_linked {state after : State} {nodes : List Nat} {record : Nat}
    (valid : Valid state nodes) (taken : Step state (.answer (some record)) after) {producer previous : Nat}
    {chain : List Nat} (exchanged : state.producer producer = .exchanged previous chain) :
    record ∉ chain ∧ record ≠ previous := by
  cases taken with
  | answer running answers =>
    rcases answers_some answers with ⟨next, rfl, rfl⟩
    have fits := valid.phase _ running
    rcases valid.gaps.placed producer previous chain exchanged with ⟨_, inside, missing⟩
    rcases valid.spans.head_cons with ⟨rest, split⟩
    have distinct := valid.spans.distinct
    rw [split, fits.1] at distinct
    rw [split, fits.1] at inside
    refine ⟨not_first_of_inside distinct inside, ?_⟩
    rintro rfl
    rw [next_record fits.2.1, fits.2.2.1] at missing
    exact fits.2.2.2 missing

/-! ## A pop that returns nothing -/

/-- A call of `pop` in flight, with the states since the call, newest first. -/
inductive InFlight (allowed : Event -> Prop) (called : State) : List State -> State -> Prop
  | calls {state : State} (taken : Step called .call state) : InFlight allowed called [state] state
  | passes {states : List State} {before after : State} {event : Event}
      (earlier : InFlight allowed called states before) (taken : Step before event after)
      (permitted : allowed event) (unanswered : ∀ result, event ≠ .answer result) :
      InFlight allowed called (after :: states) after

namespace State

/-- Nothing is linked ahead of the head: no record is queued, or a producer has
exchanged the tail behind the head and not stored the link yet. -/
def Blocked (state : State) : Prop :=
  state.queue.next state.queue.head = 0 ∧
    (state.pushed = state.popped ∨
      ∃ producer chain, state.producer producer = .exchanged state.queue.head chain)

end State

section Blocked

variable {state called : State} {nodes : List Nat} {allowed : Event -> Prop}

/-- A missing link of the head blocks the queue, or the head is its only record. -/
theorem Valid.blocked (valid : Valid state nodes) (missing : state.queue.next state.queue.head = 0)
    (apart : ∀ head previous, state.consumer ≠ some (.linkStub head previous)) :
    state.Blocked ∨ nodes = [state.queue.head] ∧ state.queue.head ≠ stub ∧
      state.queue.tail = state.queue.head := by
  rcases valid.spans.head_cons with ⟨rest, split⟩
  cases rest with
  | nil =>
    by_cases atStub : state.queue.head = stub
    · refine .inl ⟨missing, .inl ?_⟩
      have whole := valid.custody
      rw [split, atStub] at whole
      rw [whole]
      simp
    · refine .inr ⟨split, atStub, ?_⟩
      have last := valid.spans.tail
      rw [split] at last
      exact (Option.some.inj last).symm
  | cons second more =>
    refine .inl ⟨missing, .inr ?_⟩
    have linked := valid.linked
    rw [split] at linked
    have nonzero : second ≠ 0 := by
      rintro rfl
      refine valid.spans.nonzero ?_
      rw [split]
      simp
    rcases linked.gap nonzero missing with ⟨producer, after, exchanged⟩ | ⟨_, head, running⟩
    · exact ⟨producer, second :: after, exchanged⟩
    · exact absurd running (apart head _)

/-- What a pop remembers while it is about to load the tail: it met a block, or
the head has been the tail since. -/
def Remembers (states : List State) (state : State) : Prop :=
  ∀ head, state.consumer = some (.loadTail head) ->
    (∃ moment ∈ states, moment.Blocked) ∨ state.queue.tail = head

theorem Remembers.step {states : List State} {before after : State} {event : Event}
    (remembers : Remembers states before) (listed : before ∈ states) (valid : Valid before nodes)
    (taken : Step before event after) : Remembers (after :: states) after := by
  intro first running
  have onward : (∃ moment ∈ states, moment.Blocked) ->
      ∃ moment ∈ after :: states, moment.Blocked := by
    rintro ⟨moment, member, blocked⟩
    exact ⟨moment, List.mem_cons_of_mem _ member, blocked⟩
  cases taken with
  | own idle owned => exact (remembers first running).imp onward (fun same => same)
  | accept entering initialized => exact (remembers first running).imp onward (fun same => same)
  | link exchanged =>
    refine (remembers first running).imp onward ?_
    intro same
    exact setNext_tail.trans same
  | @exchange producer last chain admitted ends =>
    rcases remembers first running with seen | same
    · exact .inl (onward seen)
    have fits := valid.phase _ running
    have atHead : before.queue.head = before.queue.tail := fits.1.trans same.symm
    have missing : before.queue.next before.queue.head = 0 := by
      have linked := valid.linked
      rw [valid.spans.alone atHead] at linked
      exact linked
    refine .inl ⟨_, List.mem_cons_self, missing, .inr ⟨producer, chain, ?_⟩⟩
    rw [setProducer_self]
    show Producer.exchanged before.queue.tail chain = .exchanged before.queue.head chain
    rw [atHead]
  | call idle => cases running
  | answer running answers => cases running
  | @access phase _ _ consuming goes =>
    cases running
    cases phase with
    | loadLink head =>
      have fits := valid.phase _ consuming
      rw [CompletionQueue.access] at goes
      split_ifs at goes with stored
      · cases goes
      cases goes
      have missing : before.queue.next before.queue.head = 0 := by
        rw [fits.1, next_record fits.2]
        exact not_not.mp stored
      rcases valid.blocked missing
        (consumer_apart consuming (fun _ _ wrong => by cases wrong)) with blocked | alone
      · exact .inl ⟨before, List.mem_cons_of_mem _ listed, blocked⟩
      · exact .inr (alone.2.2.trans fits.1)
    | accept =>
      rw [CompletionQueue.access] at goes
      split_ifs at goes
      · cases goes
      · cases goes
    | loadHead =>
      rw [CompletionQueue.access] at goes
      split_ifs at goes
      · cases goes
      · cases goes
    | loadStub =>
      rw [CompletionQueue.access] at goes
      split_ifs at goes
      · cases goes
      · cases goes
    | loadTail head =>
      rw [CompletionQueue.access] at goes
      split_ifs at goes
      · cases goes
      · cases goes
    | reload head =>
      rw [CompletionQueue.access] at goes
      split_ifs at goes
      · cases goes
      · cases goes
    | passStub next => cases goes
    | take head next => cases goes
    | clearStub head => cases goes
    | exchange head => cases goes
    | linkStub head previous => cases goes

variable {states : List State}

theorem InFlight.last_mem (flight : InFlight allowed called states state) :
    state ∈ states := by
  cases flight with
  | calls taken => exact List.mem_cons_self
  | passes earlier taken permitted unanswered => exact List.mem_cons_self

theorem InFlight.custody (flight : InFlight allowed called states state)
    (custody : Custody called) : Custody state := by
  induction flight with
  | calls taken => exact custody.step taken
  | passes earlier taken permitted unanswered ih =>
    exact ih.step taken

theorem InFlight.remembers (flight : InFlight allowed called states state)
    (custody : Custody called) : Remembers states state := by
  induction flight with
  | calls taken =>
    intro head running
    cases taken with
    | call idle => cases running
  | passes earlier taken permitted unanswered ih =>
    rcases earlier.custody custody with ⟨nodes, valid⟩
    exact ih.step earlier.last_mem valid taken

/-- A pop returns nothing only if it met a block since its call. -/
theorem InFlight.answers_none {after : State}
    (flight : InFlight allowed called states state) (custody : Custody called)
    (taken : Step state (.answer none) after) : ∃ moment ∈ states, moment.Blocked := by
  rcases flight.custody custody with ⟨nodes, valid⟩
  have remembers := flight.remembers custody
  cases taken with
  | @answer phase _ _ running answers =>
    have fits := valid.phase _ running
    have here : state.Blocked -> ∃ moment ∈ states, moment.Blocked :=
      fun blocked => ⟨state, flight.last_mem, blocked⟩
    cases phase with
    | accept =>
      rw [CompletionQueue.access, if_neg (by rw [valid.spans.initialized]; simp)] at answers
      cases answers
    | loadHead =>
      rw [CompletionQueue.access] at answers
      split_ifs at answers
      · cases answers
      · cases answers
    | loadStub =>
      rw [CompletionQueue.access] at answers
      split_ifs at answers with empty
      · have missing : state.queue.next state.queue.head = 0 := by
          rw [show state.queue.head = stub from fits, next_stub]
          exact empty
        rcases valid.blocked missing
          (consumer_apart running (fun _ _ wrong => by cases wrong)) with blocked | alone
        · exact here blocked
        · exact absurd fits alone.2.1
      · cases answers
    | passStub next => cases answers
    | loadLink head =>
      rw [CompletionQueue.access] at answers
      split_ifs at answers
      · cases answers
      · cases answers
    | take head next => cases answers
    | loadTail head =>
      rw [CompletionQueue.access] at answers
      split_ifs at answers with elsewhere
      · rcases remembers head running with seen | same
        · exact seen
        · exact absurd same.symm elsewhere
      · cases answers
    | clearStub head => cases answers
    | exchange head => cases answers
    | linkStub head previous => cases answers
    | reload head =>
      rw [CompletionQueue.access] at answers
      split_ifs at answers with empty
      · have missing : state.queue.next state.queue.head = 0 := by
          rw [fits.1, next_record fits.2.1]
          exact empty
        rcases valid.blocked missing
          (consumer_apart running (fun _ _ wrong => by cases wrong)) with blocked | alone
        · exact here blocked
        · have listed : stub ∈ nodes := fits.2.2
          rw [alone.1] at listed
          exact absurd (List.mem_singleton.mp listed).symm alone.2.1
      · cases answers

end Blocked

/-! ## Pops after the producers have left -/

/-- Consecutive pops, with the consumer alone, and what they return. -/
inductive Pops : State -> List (Option Nat) -> State -> Prop
  | done (state : State) : Pops state [] state
  | pop {called last after final : State} {states : List State} {result : Option Nat}
      {results : List (Option Nat)}
      (flight : InFlight (fun event => event = .access) called states last)
      (taken : Step last (.answer result) after) (later : Pops after results final) :
      Pops called (result :: results) final

namespace State

/-- Every producer that exchanged the tail has stored its link. -/
def Settled (state : State) : Prop :=
  ∀ producer previous chain, state.producer producer ≠ .exchanged previous chain

/-- The records that are queued. -/
def remaining (state : State) : List Nat :=
  state.pushed.drop state.popped.length

end State

/-- How many accesses a pop has left at most. -/
def Phase.rank : Phase -> Nat
  | .accept => 10
  | .loadHead => 9
  | .loadStub => 8
  | .passStub _ => 7
  | .loadLink _ => 6
  | .loadTail _ => 5
  | .clearStub _ => 4
  | .exchange _ => 3
  | .linkStub _ _ => 2
  | .reload _ => 1
  | .take _ _ => 0

section Alone

variable {state called : State} {states : List State}

theorem access_rank {queue later : Queue} {phase next : Phase}
    (goes : access queue phase = (later, .goes next)) : next.rank < phase.rank := by
  cases phase with
  | accept =>
    rw [CompletionQueue.access] at goes
    split_ifs at goes <;> cases goes
    simp [Phase.rank]
  | loadHead =>
    rw [CompletionQueue.access] at goes
    split_ifs at goes <;> cases goes <;> simp [Phase.rank]
  | loadStub =>
    rw [CompletionQueue.access] at goes
    split_ifs at goes <;> cases goes
    simp [Phase.rank]
  | passStub following =>
    cases goes
    simp [Phase.rank]
  | loadLink head =>
    rw [CompletionQueue.access] at goes
    split_ifs at goes <;> cases goes <;> simp [Phase.rank]
  | take head following => cases goes
  | loadTail head =>
    rw [CompletionQueue.access] at goes
    split_ifs at goes <;> cases goes
    simp [Phase.rank]
  | clearStub head =>
    cases goes
    simp [Phase.rank]
  | exchange head =>
    cases goes
    simp [Phase.rank]
  | linkStub head previous =>
    cases goes
    simp [Phase.rank]
  | reload head =>
    rw [CompletionQueue.access] at goes
    split_ifs at goes <;> cases goes
    simp [Phase.rank]

theorem consumer_returns {phase : Phase} (running : state.consumer = some phase) :
    ∃ last result after,
      ReflTransGen (fun before later => Step before .access later) state last ∧
        Step last (.answer result) after := by
  induction bound : phase.rank using Nat.strong_induction_on generalizing state phase with
  | _ rank ih =>
    cases reached : access state.queue phase with
    | mk queue outcome =>
      cases outcome with
      | answers result => exact ⟨state, result, _, .refl, .answer running reached⟩
      | goes later =>
        have lower : later.rank < rank := by
          rw [<- bound]
          exact access_rank reached
        have onward : Step state .access { state with queue := queue, consumer := some later } :=
          .access running reached
        rcases ih later.rank lower
          (show { state with queue := queue, consumer := some later }.consumer = some later
            from rfl) rfl with ⟨last, result, after, path, taken⟩
        exact ⟨last, result, after, .head onward path, taken⟩

theorem InFlight.extend {last : State}
    (flight : InFlight (fun event => event = .access) called states state)
    (path : ReflTransGen (fun before later => Step before .access later) state last) :
    ∃ visited, InFlight (fun event => event = .access) called visited last := by
  induction path with
  | refl => exact ⟨states, flight⟩
  | tail earlier taken ih =>
    rcases ih with ⟨visited, onward⟩
    exact ⟨_, onward.passes taken rfl nofun⟩

theorem InFlight.still (flight : InFlight (fun event => event = .access) called states state) :
    state.producer = called.producer ∧ state.pushed = called.pushed ∧
      state.popped = called.popped := by
  induction flight with
  | calls taken =>
    cases taken with
    | call idle => exact ⟨rfl, rfl, rfl⟩
  | passes earlier taken permitted unanswered ih =>
    subst permitted
    cases taken with
    | access running goes => exact ih

theorem InFlight.mem_still (flight : InFlight (fun event => event = .access) called states state)
    {moment : State} (listed : moment ∈ states) :
    moment.producer = called.producer ∧ moment.pushed = called.pushed ∧
      moment.popped = called.popped := by
  induction flight with
  | calls taken =>
    rw [List.mem_singleton.mp listed]
    exact (InFlight.calls taken).still
  | passes earlier taken permitted unanswered ih =>
    rcases List.mem_cons.mp listed with same | before
    · rw [same]
      exact (InFlight.passes earlier taken permitted unanswered).still
    · exact ih before

theorem pop_settled (custody : Custody called) (settled : called.Settled) {result : Option Nat}
    {after : State} (flight : InFlight (fun event => event = .access) called states state)
    (taken : Step state (.answer result) after) :
    result = called.remaining[0]? ∧ after.remaining = called.remaining.tail ∧
      after.Settled ∧ after.consumer = none ∧ Custody after := by
  have custodyAfter := (flight.custody custody).step taken
  have still := flight.still
  have leaves : after.producer = state.producer ∧ after.consumer = none ∧
      after.pushed = state.pushed ∧ after.popped = state.popped ++ result.toList := by
    cases taken with
    | answer running answers => exact ⟨rfl, rfl, rfl, rfl⟩
  rcases leaves with ⟨producers, idle, pushed, popped⟩
  have settledAfter : after.Settled := by
    intro producer previous chain
    rw [producers, still.1]
    exact settled producer previous chain
  refine ⟨?_, ?_, settledAfter, idle, custodyAfter⟩
  · cases result with
    | none =>
      rcases flight.answers_none custody taken with ⟨moment, listed, missing, blocked⟩
      have same := flight.mem_still listed
      rcases blocked with empty | ⟨producer, chain, exchanged⟩
      · rw [same.2.1, same.2.2] at empty
        unfold State.remaining
        rw [empty]
        simp
      · rw [same.1] at exchanged
        exact absurd exchanged (settled producer _ chain)
    | some record =>
      rcases custodyAfter with ⟨nodes, valid⟩
      rcases valid.popped_prefix with ⟨rest, split⟩
      rw [popped, pushed, still.2.1, still.2.2] at split
      unfold State.remaining
      rw [<- split]
      simp
  · unfold State.remaining
    rw [pushed, popped, still.2.1, still.2.2]
    cases result with
    | none =>
      rcases flight.answers_none custody taken with ⟨moment, listed, missing, blocked⟩
      have same := flight.mem_still listed
      rcases blocked with empty | ⟨producer, chain, exchanged⟩
      · rw [same.2.1, same.2.2] at empty
        rw [empty]
        simp
      · rw [same.1] at exchanged
        exact absurd exchanged (settled producer _ chain)
    | some record => simp

/-- Pops by the consumer alone return the queued records one after another. -/
theorem Pops.results {results : List (Option Nat)} {final : State} (pops : Pops called results final)
    (custody : Custody called) (settled : called.Settled) :
    ∀ (index : Nat) (result : Option Nat), results[index]? = some result ->
      result = called.remaining[index]? := by
  induction pops with
  | done idle =>
    intro index result found
    cases found
  | pop flight taken later ih =>
    intro index result found
    rcases pop_settled custody settled flight taken with ⟨first, rest, settledAfter, _, held⟩
    cases index with
    | zero =>
      rw [<- Option.some.inj found]
      exact first
    | succ index =>
      have known := ih held settledAfter index result found
      rw [known, rest, List.getElem?_tail]

theorem pops_exist (idle : called.consumer = none) (custody : Custody called)
    (settled : called.Settled) (count : Nat) :
    ∃ results final, results.length = count ∧ Pops called results final := by
  induction count generalizing called with
  | zero => exact ⟨[], called, rfl, .done called⟩
  | succ count ih =>
    have starts := Step.call idle
    rcases consumer_returns
      (show { called with consumer := some Phase.accept }.consumer = some .accept from rfl) with
      ⟨last, result, after, path, taken⟩
    rcases (InFlight.calls starts).extend path with ⟨visited, flight⟩
    rcases pop_settled custody settled flight taken with ⟨_, _, settledAfter, idleAfter, held⟩
    rcases ih idleAfter held settledAfter with ⟨results, final, length, later⟩
    exact ⟨result :: results, final, by rw [List.length_cons, length], .pop flight taken later⟩

end Alone

/-- Custody of the queued records over every run of producers and consumer:
records come out in the order of the exchanges, at most once, and only when their
producer has linked them; a pop in flight always returns, and returns nothing only
if it met an empty queue or a gap behind the head; and pops by the consumer alone
return everything once no producer is between its exchange and its link store. -/
theorem queue_keeps_custody {history : List Event} {state : State}
    (run : Run Starts Step history state) :
    state.popped <+: state.pushed ∧
    (∀ record after, Step state (.answer (some record)) after ->
      ∀ producer previous chain, state.producer producer = .exchanged previous chain ->
        record ∉ chain ∧ record ≠ previous) ∧
    (∀ states last after, InFlight (fun _ => True) state states last ->
      Step last (.answer none) after -> ∃ moment ∈ states, moment.Blocked) ∧
    (∀ phase, state.consumer = some phase -> ∃ last result after,
      ReflTransGen (fun before later => Step before .access later) state last ∧
        Step last (.answer result) after) ∧
    (state.Settled -> state.consumer = none ->
      (∀ results final, Pops state results final -> ∀ (index : Nat) (result : Option Nat),
        results[index]? = some result -> result = state.remaining[index]?) ∧
      ∀ count, ∃ results final, results.length = count ∧ Pops state results final) := by
  have custody := custody_of_run run
  rcases custody with ⟨nodes, valid⟩
  refine ⟨valid.popped_prefix, ?_, ?_, ?_, ?_⟩
  · intro record after taken producer previous chain exchanged
    exact valid.answer_linked taken exchanged
  · intro states last after flight taken
    exact flight.answers_none ⟨nodes, valid⟩ taken
  · intro phase running
    exact consumer_returns running
  intro settled idle
  refine ⟨?_, ?_⟩
  · intro results final pops
    exact pops.results ⟨nodes, valid⟩ settled
  · intro count
    exact pops_exist idle ⟨nodes, valid⟩ settled count

/-- An initialized queue with no record. -/
def emptyQueue : State :=
  { queue := { initialized := 2, head := stub, tail := stub, stubNext := 0, link := fun _ => 0 },
    producer := fun _ => .idle, consumer := none, pushed := [], popped := [] }

theorem emptyQueue_starts : Starts emptyQueue :=
  ⟨rfl, rfl, rfl, rfl, fun _ => rfl, rfl, rfl, rfl⟩

/-- With no call of `push` under way, a caller may push records that were never queued. -/
theorem owned_of_idle {state : State} {chain : List Nat}
    (idle : ∀ producer, state.producer producer = .idle) (nonempty : chain ≠ [])
    (distinct : chain.Nodup) (records : ∀ record ∈ chain, record ≠ 0 ∧ record ≠ stub)
    (unused : ∀ record ∈ chain, state.pushed.count record = state.popped.count record) :
    state.Owned chain := by
  refine ⟨nonempty, distinct, records, fun record listed => ⟨unused record listed, ?_⟩⟩
  intro producer owned owning
  rw [idle producer] at owning
  exact False.elim owning

/-- The first of two records is popped, and a producer has pushed a third one and not
linked it yet. -/
theorem queue_keeps_custody_gap : ∃ history state, Run Starts Step history state ∧
    state.pushed = [1, 2, 3] ∧ state.popped = [1] ∧ state.producer 0 = .exchanged 2 [3] ∧
      state.popped <+: state.pushed := by
  have owns := Run.next (.initial emptyQueue_starts) (show Step emptyQueue (.own 0 [1, 2]) _ from
    .own rfl (owned_of_idle (fun _ => rfl) (by decide) (by decide) (by decide) (by decide)))
  have admitted := owns.next (.accept (setProducer_self _ 0 _) rfl)
  have exchanged := admitted.next (.exchange (setProducer_self _ 0 _) rfl)
  have linked := exchanged.next (.link (setProducer_self _ 0 _))
  have called := linked.next (.call rfl)
  have accepted := called.next (.access rfl rfl)
  have headed := accepted.next (.access rfl rfl)
  have stubbed := headed.next (.access rfl rfl)
  have passed := stubbed.next (.access rfl rfl)
  have read := passed.next (.access rfl rfl)
  have popped := read.next (.answer rfl rfl)
  have ownsThird := popped.next (@Step.own _ 0 [3] ?_ (owned_of_idle ?_ (by decide) (by decide)
    (by decide) (by decide)))
  have admittedThird := ownsThird.next (.accept (setProducer_self _ 0 _) rfl)
  have gap := admittedThird.next (.exchange (setProducer_self _ 0 _) rfl)
  · exact ⟨_, _, gap, rfl, rfl, setProducer_self _ 0 _, (queue_keeps_custody gap).1⟩
  · simp [State.setProducer]
  · simp [State.setProducer, emptyQueue]

end CompletionQueue
end Carrick
