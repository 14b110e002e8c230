import Carrick.CompletionQueue.Custody

namespace Carrick
namespace CompletionQueue

open Foundation

/-!
# Every step keeps custody

One lemma for each step: if `nodes` spans the queue before it, some list of nodes
spans the queue after it.  A producer's exchange appends its chain, the consumer's
exchange appends the stub, and passing the stub or taking a record drops the head.
-/

section Producers

variable {state : State} {nodes chain : List Nat} {producer : Nat}

theorem next_linkChain_outside (queue : Queue) {node : Nat} (outside : node ∉ chain) :
    ({ queue with link := linkChain queue.link chain } : Queue).next node = queue.next node := by
  unfold Queue.next
  by_cases atStub : node = stub
  · rw [if_pos atStub, if_pos atStub]
  · rw [if_neg atStub, if_neg atStub]
    exact linkChain_outside queue.link outside

variable {later : State} {kept : List Nat}

/-- Chains that were owned before, with the links of everything outside the queue. -/
theorem ChainsOwned.keep (chains : ChainsOwned state nodes)
    (owns : ∀ other held, (later.producer other).Owns held -> (state.producer other).Owns held)
    (links : ∀ record, record ≠ stub -> record ∉ nodes ->
      later.queue.next record = state.queue.next record)
    (outside : ∀ other held, (later.producer other).Owns held ->
      ∀ record ∈ held, record ∉ kept) : ChainsOwned later kept := by
  refine ⟨fun other held holds => chains.nonempty other held (owns other held holds),
    fun other held holds => chains.distinct other held (owns other held holds), ?_, ?_,
    fun one two held more holdsOne holdsTwo => chains.apart one two held more
      (owns one held holdsOne) (owns two more holdsTwo)⟩
  · intro other held holds record listed
    have known := chains.outside other held (owns other held holds) record listed
    exact ⟨known.1, known.2.1, outside other held holds record listed⟩
  intro other held holds
  refine (chains.joined other held (owns other held holds)).weaken ?_ (fun _ _ _ wrong => wrong)
  intro record listed
  have known := chains.outside other held (owns other held holds) record listed
  exact links record known.2.1 known.2.2

theorem GapsOwned.keep (gaps : GapsOwned state nodes)
    (still : ∀ other before held, later.producer other = .exchanged before held ->
      state.producer other = .exchanged before held)
    (placed : ∀ other before held, later.producer other = .exchanged before held ->
      before :: held <:+: nodes -> state.queue.next before = 0 ->
      before :: held <:+: kept ∧ later.queue.next before = 0)
    (apart : ∀ other before held head, later.producer other = .exchanged before held ->
      later.consumer ≠ some (.linkStub head before)) : GapsOwned later kept := by
  refine ⟨?_, fun one two before held more first second => gaps.single one two before held more
    (still one before held first) (still two before more second), apart⟩
  intro other before held exchanged
  rcases gaps.placed other before held (still other before held exchanged) with
    ⟨nonempty, inside, missing⟩
  exact ⟨nonempty, placed other before held exchanged inside missing⟩

theorem Valid.own (valid : Valid state nodes) (idle : state.producer producer = .idle)
    (owned : state.Owned chain) :
    Valid ({ state with queue :=
        { state.queue with link := linkChain state.queue.link chain } }.setProducer producer
      (.entering chain)) nodes := by
  have outside : ∀ record ∈ chain, record ∉ nodes := fun record listed =>
    valid.outside_of_free (owned.free record listed) (owned.records record listed).2
  have queued : ∀ node ∈ nodes, node ∉ chain := fun node listed member =>
    outside node member listed
  refine ⟨⟨valid.spans.initialized, valid.spans.head, valid.spans.tail, valid.spans.distinct,
    valid.spans.nonzero⟩, valid.custody, ?_, ?_, ?_, ?_⟩
  · refine valid.linked.weaken ?_ ?_
    · intro node listed
      exact next_linkChain_outside state.queue (queued node listed)
    intro before after _ pending
    refine pending.setProducer rfl rfl ?_
    intro previous other wrong
    rw [idle] at wrong
    cases wrong
  · have owns : ∀ other held,
        (({ state with queue :=
          { state.queue with link := linkChain state.queue.link chain } } : State).setProducer producer
            (.entering chain) |>.producer other).Owns held ->
        other = producer ∧ held = chain ∨
          other ≠ producer ∧ (state.producer other).Owns held := by
      intro other held owning
      by_cases same : other = producer
      · subst same
        rw [setProducer_self] at owning
        exact .inl ⟨rfl, owning⟩
      · rw [setProducer_other _ same] at owning
        exact .inr ⟨same, owning⟩
    refine ⟨?_, ?_, ?_, ?_, ?_⟩
    · intro other held owning
      rcases owns other held owning with ⟨_, rfl⟩ | ⟨_, before⟩
      · exact owned.nonempty
      · exact valid.chains.nonempty other held before
    · intro other held owning
      rcases owns other held owning with ⟨_, rfl⟩ | ⟨_, before⟩
      · exact owned.distinct
      · exact valid.chains.distinct other held before
    · intro other held owning record listed
      rcases owns other held owning with ⟨_, rfl⟩ | ⟨_, before⟩
      · exact ⟨(owned.records record listed).1, (owned.records record listed).2,
          outside record listed⟩
      · exact valid.chains.outside other held before record listed
    · intro other held owning
      rcases owns other held owning with ⟨_, rfl⟩ | ⟨_, before⟩
      · refine (linkChain_linked state.queue.link owned.distinct).weaken ?_
          (fun _ _ _ wrong => wrong)
        intro node listed
        exact next_record (owned.records node listed).2
      refine (valid.chains.joined other held before).weaken ?_ (fun _ _ _ wrong => wrong)
      intro node listed
      refine next_linkChain_outside state.queue ?_
      intro member
      exact (owned.free node member).2 other held before listed
    · intro first second one two owningOne owningTwo different record listed
      rcases owns first one owningOne with ⟨rfl, rfl⟩ | ⟨_, before⟩
      · rcases owns second two owningTwo with ⟨rfl, _⟩ | ⟨_, beforeTwo⟩
        · exact absurd rfl different
        · exact (owned.free record listed).2 second two beforeTwo
      · rcases owns second two owningTwo with ⟨_, rfl⟩ | ⟨_, beforeTwo⟩
        · intro member
          exact (owned.free record member).2 first one before listed
        · exact valid.chains.apart first second one two before beforeTwo different record listed
  · have exchanging : ∀ other before held,
        (({ state with queue :=
          { state.queue with link := linkChain state.queue.link chain } } : State).setProducer producer
            (.entering chain)).producer other = .exchanged before held ->
        state.producer other = .exchanged before held := by
      intro other before held exchanged
      by_cases same : other = producer
      · subst same
        rw [setProducer_self] at exchanged
        cases exchanged
      · rwa [setProducer_other _ same] at exchanged
    refine valid.gaps.keep exchanging ?_ (fun other before held head exchanged =>
      valid.gaps.apart other before held head (exchanging _ _ _ exchanged))
    intro other before held exchanged inside missing
    exact ⟨inside, (next_linkChain_outside state.queue
      (queued before (inside.subset (by simp)))).trans missing⟩
  · intro phase running
    refine (valid.phase phase running).congr valid.spans rfl rfl ?_
    intro node listed
    exact next_linkChain_outside state.queue (queued node listed)

theorem Valid.accept (valid : Valid state nodes) (entering : state.producer producer = .entering chain) :
    Valid (state.setProducer producer (.admitted chain)) nodes := by
  have owns : ∀ other held,
      ((state.setProducer producer (.admitted chain)).producer other).Owns held ->
      (state.producer other).Owns held := by
    intro other held owning
    rcases setProducer_cases state producer other (.admitted chain) with ⟨same, here⟩ | ⟨_, here⟩
    · rw [here] at owning
      rw [same, entering]
      exact owning
    · rwa [here] at owning
  have exchanging : ∀ other before held,
      (state.setProducer producer (.admitted chain)).producer other = .exchanged before held ->
      state.producer other = .exchanged before held := by
    intro other before held exchanged
    rcases setProducer_cases state producer other (.admitted chain) with ⟨_, here⟩ | ⟨_, here⟩
    · rw [here] at exchanged
      cases exchanged
    · rwa [here] at exchanged
  refine ⟨valid.spans, valid.custody, ?_, ?_, ?_, valid.phase⟩
  · refine valid.linked.weaken (fun _ _ => rfl) ?_
    intro before after _ pending
    refine pending.setProducer rfl rfl ?_
    intro previous other wrong
    rw [entering] at wrong
    cases wrong
  · exact valid.chains.keep owns (fun _ _ _ => rfl) (fun other held owning record listed =>
      (valid.chains.outside other held (owns other held owning) record listed).2.2)
  · exact valid.gaps.keep exchanging (fun _ _ _ _ inside missing => ⟨inside, missing⟩)
      (fun other before held head exchanged => valid.gaps.apart other before held head
        (exchanging other before held exchanged))

/-! ### The exchange of a producer -/

theorem Phase.Fits.append {queue : Queue} {phase : Phase} (fits : phase.Fits queue nodes)
    (records : stub ∉ chain) (last : Nat) :
    phase.Fits { queue with tail := last } (nodes ++ chain) := by
  have absent : stub ∉ nodes -> stub ∉ nodes ++ chain := by
    intro outside listed
    rcases List.mem_append.mp listed with earlier | later
    · exact outside earlier
    · exact records later
  cases phase with
  | accept => trivial
  | loadHead => trivial
  | loadStub => exact fits
  | passStub next => exact fits
  | loadLink first => exact fits
  | take first next => exact fits
  | loadTail first => exact fits
  | clearStub first => exact ⟨fits.1, fits.2.1, absent fits.2.2⟩
  | exchange first => exact ⟨fits.1, fits.2.1, absent fits.2.2.1, fits.2.2.2⟩
  | linkStub first previous =>
    exact ⟨fits.1, fits.2.1, fits.2.2.1.trans (List.prefix_append nodes chain).isInfix,
      fits.2.2.2⟩
  | reload first => exact ⟨fits.1, fits.2.1, List.mem_append_left chain fits.2.2⟩

theorem Valid.tail_not_awaited (valid : Valid state nodes) :
    (∀ other held, state.producer other ≠ .exchanged state.queue.tail held) ∧
      ∀ head, state.consumer ≠ some (.linkStub head state.queue.tail) := by
  rcases valid.spans.tail_append with ⟨front, split⟩
  have distinct := valid.spans.distinct
  rw [split] at distinct
  constructor
  · intro other held exchanged
    rcases valid.gaps.follows exchanged with ⟨after, rest, _, follows⟩
    rw [split] at follows
    exact follows.not_last distinct rfl
  · intro head running
    have follows := (valid.phase _ running).2.2.1
    rw [split] at follows
    exact follows.not_last distinct rfl

theorem Valid.exchange {last : Nat} (valid : Valid state nodes)
    (admitted : state.producer producer = .admitted chain) (ends : chain.getLast? = some last) :
    Valid ({ state with
        queue := { state.queue with tail := last },
        pushed := state.pushed ++ chain }.setProducer producer
      (.exchanged state.queue.tail chain)) (nodes ++ chain) := by
  have owning : (state.producer producer).Owns chain := by
    rw [admitted]
    rfl
  have nonempty := valid.chains.nonempty producer chain owning
  have outside := valid.chains.outside producer chain owning
  have records : stub ∉ chain := fun listed => (outside stub listed).2.1 rfl
  have missing : state.queue.next state.queue.tail = 0 := by
    rcases valid.spans.tail_append with ⟨front, split⟩
    have linked := valid.linked
    rw [split] at linked
    exact linked.last_next
  have joined := valid.chains.joined producer chain owning
  have keeps : ∀ before after, Pending state before after ->
      Pending (({ state with
        queue := { state.queue with tail := last },
        pushed := state.pushed ++ chain } : State).setProducer producer
      (.exchanged state.queue.tail chain)) before after := by
    intro before after pending
    refine pending.setProducer rfl rfl ?_
    intro previous other wrong
    rw [admitted] at wrong
    cases wrong
  refine ⟨⟨valid.spans.initialized, ?_, ?_, ?_, ?_⟩, ?_, ?_, ?_, ?_, ?_⟩
  · show (nodes ++ chain).head? = some state.queue.head
    rw [List.head?_append, valid.spans.head]
    rfl
  · show (nodes ++ chain).getLast? = some last
    rw [List.getLast?_append, ends]
    rfl
  · refine List.nodup_append.mpr ⟨valid.spans.distinct,
      valid.chains.distinct producer chain owning, ?_⟩
    rintro node listed other member rfl
    exact (outside node member).2.2 listed
  · intro listed
    rcases List.mem_append.mp listed with earlier | later
    · exact valid.spans.nonzero earlier
    · exact (outside 0 later).1 rfl
  · show state.pushed ++ chain =
      state.popped ++ (nodes ++ chain).filter (fun node => node ≠ stub)
    have whole : chain.filter (fun node => node ≠ stub) = chain := by
      refine List.filter_eq_self.mpr ?_
      intro record listed
      simpa using (outside record listed).2.1
    rw [List.filter_append, whole, <- List.append_assoc, <- valid.custody]
  · rcases valid.spans.tail_append with ⟨front, split⟩
    cases chain with
    | nil => exact absurd rfl nonempty
    | cons first rest =>
      rw [split]
      refine Linked.append ?_ ?_ ?_
      · rw [<- split]
        exact valid.linked.weaken (fun _ _ => rfl) (fun before after _ => keeps before after)
      · exact joined.weaken (fun _ _ => rfl) (fun _ _ _ wrong => absurd wrong (fun no => no))
      · exact .inl ⟨producer, rest, setProducer_self _ producer _⟩
  · have owns : ∀ other held,
        (((({ state with
          queue := { state.queue with tail := last },
          pushed := state.pushed ++ chain } : State).setProducer producer
            (.exchanged state.queue.tail chain))).producer other).Owns held ->
        other ≠ producer ∧ (state.producer other).Owns held := by
      intro other held holds
      rcases setProducer_cases { state with
          queue := { state.queue with tail := last },
          pushed := state.pushed ++ chain } producer other
          (.exchanged state.queue.tail chain) with ⟨_, here⟩ | ⟨different, here⟩
      · rw [here] at holds
        exact absurd holds (fun no => no)
      · rw [here] at holds
        exact ⟨different, holds⟩
    refine valid.chains.keep (fun other held holds => (owns other held holds).2)
      (fun _ _ _ => rfl) ?_
    intro other held holds record listed member
    rcases owns other held holds with ⟨different, before⟩
    rcases List.mem_append.mp member with earlier | later
    · exact (valid.chains.outside other held before record listed).2.2 earlier
    · exact valid.chains.apart other producer held chain before owning different record listed
        later
  · have exchanging : ∀ other before held,
        (({ state with
          queue := { state.queue with tail := last },
          pushed := state.pushed ++ chain } : State).setProducer producer
            (.exchanged state.queue.tail chain)).producer other = .exchanged before held ->
        other = producer ∧ before = state.queue.tail ∧ held = chain ∨
          other ≠ producer ∧ before ≠ state.queue.tail ∧
            state.producer other = .exchanged before held := by
      intro other before held exchanged
      rcases setProducer_cases { state with
          queue := { state.queue with tail := last },
          pushed := state.pushed ++ chain } producer other
          (.exchanged state.queue.tail chain) with ⟨same, here⟩ | ⟨different, here⟩
      · rw [here] at exchanged
        cases exchanged
        exact .inl ⟨same, rfl, rfl⟩
      · rw [here] at exchanged
        refine .inr ⟨different, ?_, exchanged⟩
        rintro rfl
        exact valid.tail_not_awaited.1 other held exchanged
    refine ⟨?_, ?_, ?_⟩
    · intro other before held exchanged
      rcases exchanging other before held exchanged with ⟨_, rfl, rfl⟩ | ⟨_, _, earlier⟩
      · refine ⟨nonempty, ?_, missing⟩
        rcases valid.spans.tail_append with ⟨front, split⟩
        rw [split, List.append_assoc]
        exact (List.suffix_append front (state.queue.tail :: held)).isInfix
      · rcases valid.gaps.placed other before held earlier with ⟨some, inside, none⟩
        exact ⟨some, inside.trans (List.prefix_append nodes chain).isInfix, none⟩
    · intro one two before held kept exchangedOne exchangedTwo
      rcases exchanging one before held exchangedOne with ⟨rfl, atTail, _⟩ | ⟨_, elsewhere, earlier⟩
      · rcases exchanging two before kept exchangedTwo with ⟨rfl, _, _⟩ | ⟨_, elsewhere, _⟩
        · rfl
        · exact absurd atTail elsewhere
      · rcases exchanging two before kept exchangedTwo with ⟨_, atTail, _⟩ | ⟨_, _, earlierTwo⟩
        · exact absurd atTail elsewhere
        · exact valid.gaps.single one two before held kept earlier earlierTwo
    · intro other before held head exchanged
      rcases exchanging other before held exchanged with ⟨_, rfl, _⟩ | ⟨_, _, earlier⟩
      · exact valid.tail_not_awaited.2 head
      · exact valid.gaps.apart other before held head earlier
  · intro phase running
    exact (valid.phase phase running).append records last

/-! ### The link store of a producer -/

/-- The consumer's facts while another party stores a missing link. -/
theorem Phase.Fits.store {queue : Queue} {phase : Phase} {before after : Nat}
    (fits : phase.Fits queue nodes) (missing : queue.next before = 0)
    (listed : before ∈ nodes) (another : ∀ head, phase ≠ .linkStub head before) :
    phase.Fits (queue.setNext before after) nodes := by
  have stored : ∀ node, queue.next node ≠ 0 ->
      (queue.setNext before after).next node = queue.next node := by
    intro node present
    refine next_setNext_other ?_
    rintro rfl
    exact present missing
  have head : (queue.setNext before after).head = queue.head := setNext_head
  cases phase with
  | accept => trivial
  | loadHead => trivial
  | loadStub => exact head.trans fits
  | passStub next =>
    refine ⟨head.trans fits.1, ?_, fits.2.2⟩
    rw [<- next_stub, stored stub (by rw [next_stub, fits.2.1]; exact fits.2.2), next_stub]
    exact fits.2.1
  | loadLink first => exact ⟨head.trans fits.1, fits.2⟩
  | take first next =>
    refine ⟨head.trans fits.1, fits.2.1, ?_, fits.2.2.2⟩
    rw [<- next_record fits.2.1,
      stored first (by rw [next_record fits.2.1, fits.2.2.1]; exact fits.2.2.2),
      next_record fits.2.1]
    exact fits.2.2.1
  | loadTail first => exact ⟨head.trans fits.1, fits.2⟩
  | clearStub first => exact ⟨head.trans fits.1, fits.2⟩
  | exchange first =>
    refine ⟨head.trans fits.1, fits.2.1, fits.2.2.1, ?_⟩
    have different : stub ≠ before := by
      rintro rfl
      exact fits.2.2.1 listed
    rw [<- next_stub, next_setNext_other different, next_stub]
    exact fits.2.2.2
  | linkStub first previous =>
    refine ⟨head.trans fits.1, fits.2.1, fits.2.2.1, ?_⟩
    have different : previous ≠ before := by
      rintro rfl
      exact another first rfl
    rw [next_setNext_other different]
    exact fits.2.2.2
  | reload first => exact ⟨head.trans fits.1, fits.2⟩

theorem Spans.setNext {queue : Queue} (spans : Spans queue nodes) (before after : Nat) :
    Spans (queue.setNext before after) nodes :=
  ⟨setNext_initialized.trans spans.initialized, spans.head.trans (by rw [setNext_head]),
    spans.tail.trans (by rw [setNext_tail]), spans.distinct, spans.nonzero⟩

theorem Valid.link {previous first : Nat} {rest : List Nat} (valid : Valid state nodes)
    (exchanged : state.producer producer = .exchanged previous (first :: rest)) :
    Valid ({ state with queue := state.queue.setNext previous first }.setProducer producer .idle)
      nodes := by
  rcases valid.gaps.placed producer previous (first :: rest) exchanged with ⟨_, inside, missing⟩
  have listed : previous ∈ nodes := inside.subset (by simp)
  have follows : Adjoins nodes previous first :=
    (List.prefix_append [previous, first] rest).isInfix.trans inside
  have another : ∀ head, state.consumer ≠ some (.linkStub head previous) := fun head =>
    valid.gaps.apart producer previous (first :: rest) head exchanged
  have owns : ∀ other held,
      ((({ state with queue := state.queue.setNext previous first } : State).setProducer producer
        .idle).producer other).Owns held -> (state.producer other).Owns held := by
    intro other held holds
    rcases setProducer_cases { state with queue := state.queue.setNext previous first } producer
      other .idle with ⟨_, here⟩ | ⟨_, here⟩
    · rw [here] at holds
      exact absurd holds (fun no => no)
    · rwa [here] at holds
  have exchanging : ∀ other before held,
      (({ state with queue := state.queue.setNext previous first } : State).setProducer producer
        .idle).producer other = .exchanged before held ->
      before ≠ previous ∧ state.producer other = .exchanged before held := by
    intro other before held still
    rcases setProducer_cases { state with queue := state.queue.setNext previous first } producer
      other .idle with ⟨_, here⟩ | ⟨different, here⟩
    · rw [here] at still
      cases still
    · rw [here] at still
      refine ⟨?_, still⟩
      rintro rfl
      exact different (valid.gaps.single other producer before held _ still exchanged)
  refine ⟨valid.spans.setNext previous first, valid.custody, ?_, ?_, ?_, ?_⟩
  · refine valid.linked.store valid.spans.distinct follows next_setNext_self
      (fun node different => next_setNext_other different) ?_
    intro node behind different pending
    rcases pending with ⟨other, more, waiting⟩ | ⟨atStub, head, running⟩
    · have another : other ≠ producer := by
        rintro rfl
        rw [exchanged] at waiting
        cases waiting
        exact different rfl
      refine .inl ⟨other, more, ?_⟩
      rw [setProducer_other _ another]
      exact waiting
    · exact .inr ⟨atStub, head, running⟩
  · refine valid.chains.keep owns ?_ (fun other held holds record member =>
      (valid.chains.outside other held (owns other held holds) record member).2.2)
    intro record _ outside
    refine next_setNext_other ?_
    rintro rfl
    exact outside listed
  · refine valid.gaps.keep (fun other before held still => (exchanging other before held still).2)
      ?_ (fun other before held head still =>
        valid.gaps.apart other before held head (exchanging other before held still).2)
    intro other before held still inside none
    exact ⟨inside, (next_setNext_other (exchanging other before held still).1).trans none⟩
  · intro phase running
    refine (valid.phase phase running).store missing listed ?_
    rintro head rfl
    exact another head running

end Producers

/-! ## The steps of the consumer -/

section Consumer

variable {state later : State} {nodes kept : List Nat}

/-- The producers' chains do not depend on what the consumer does to queued
nodes and to the stub. -/
theorem ChainsOwned.consume (chains : ChainsOwned state nodes)
    (producers : later.producer = state.producer)
    (links : ∀ record, record ≠ stub -> record ∉ nodes ->
      later.queue.next record = state.queue.next record)
    (inside : ∀ node ∈ kept, node ∈ nodes ∨ node = stub) :
    ChainsOwned later kept := by
  have owns : ∀ other held, (later.producer other).Owns held ->
      (state.producer other).Owns held := by
    rw [producers]
    exact fun _ _ holds => holds
  refine chains.keep owns links ?_
  intro other held holds record listed member
  have known := chains.outside other held (owns other held holds) record listed
  rcases inside record member with earlier | atStub
  · exact known.2.2 earlier
  · exact known.2.1 atStub

theorem Pending.consume {before after : Nat} (pending : Pending state before after)
    (producers : later.producer = state.producer)
    (apart : ∀ head previous, state.consumer ≠ some (.linkStub head previous)) :
    Pending later before after := by
  rcases pending with ⟨producer, rest, exchanged⟩ | ⟨_, head, running⟩
  · exact .inl ⟨producer, rest, by rw [producers]; exact exchanged⟩
  · exact absurd running (apart head before)

theorem Valid.reads (valid : Valid state nodes) (queue : later.queue = state.queue)
    (producers : later.producer = state.producer) (pushed : later.pushed = state.pushed)
    (popped : later.popped = state.popped)
    (apart : ∀ head previous, state.consumer ≠ some (.linkStub head previous))
    (laterApart : ∀ head previous, later.consumer ≠ some (.linkStub head previous))
    (fits : ∀ phase, later.consumer = some phase -> phase.Fits state.queue nodes) :
    Valid later nodes := by
  refine ⟨by rw [queue]; exact valid.spans, by rw [pushed, popped]; exact valid.custody, ?_, ?_, ?_,
    by rw [queue]; exact fits⟩
  · rw [queue]
    exact valid.linked.weaken (fun _ _ => rfl) (fun _ _ _ pending => pending.consume producers apart)
  · exact valid.chains.consume producers (fun _ _ _ => by rw [queue]) (fun _ listed => .inl listed)
  refine ⟨?_, ?_, fun _ before _ head _ => laterApart head before⟩
  · rw [producers, queue]
    exact valid.gaps.placed
  · rw [producers]
    exact valid.gaps.single

theorem Valid.dropHead (valid : Valid state nodes)
    (stored : state.queue.next state.queue.head ≠ 0)
    (queue : later.queue = { state.queue with head := state.queue.next state.queue.head })
    (producers : later.producer = state.producer) (pushed : later.pushed = state.pushed)
    (popped : later.popped = state.popped ++ [state.queue.head].filter (fun node => node ≠ stub))
    (apart : ∀ head previous, state.consumer ≠ some (.linkStub head previous))
    (laterApart : ∀ head previous, later.consumer ≠ some (.linkStub head previous))
    (fits : ∀ phase, later.consumer = some phase -> phase.Fits later.queue nodes.tail) :
    Valid later nodes.tail := by
  rcases valid.spans.head_cons with ⟨rest, split⟩
  have linked := valid.linked
  rw [split] at linked
  rcases linked.behind stored with ⟨more, behind⟩
  have dropped : nodes.tail = rest := by rw [split, List.tail_cons]
  have fewer := valid.spans.distinct
  rw [split] at fewer
  have next : later.queue.next = state.queue.next := by
    rw [queue]
    rfl
  refine ⟨⟨?_, ?_, ?_, ?_, ?_⟩, ?_, ?_, ?_, ?_, fits⟩
  · rw [queue]
    exact valid.spans.initialized
  · rw [dropped, queue, behind]
    rfl
  · have last := valid.spans.tail
    rw [split, behind, List.getLast?_cons_cons] at last
    rw [dropped, queue, behind]
    exact last
  · rw [dropped]
    exact (List.nodup_cons.mp fewer).2
  · rw [dropped]
    intro listed
    refine valid.spans.nonzero ?_
    rw [split]
    exact List.mem_cons_of_mem _ listed
  · have whole := valid.custody
    rw [split, List.filter_cons] at whole
    rw [pushed, popped, dropped, whole, List.append_assoc]
    congr 1
    rw [List.filter_cons]
    split_ifs
    · rfl
    · rfl
  · rw [dropped, next]
    exact linked.tail.weaken (fun _ _ => rfl)
      (fun _ _ _ pending => pending.consume producers apart)
  · refine valid.chains.consume producers (fun _ _ _ => by rw [next]) ?_
    intro node listed
    refine .inl ?_
    rw [split]
    exact List.mem_cons_of_mem _ (dropped ▸ listed)
  refine ⟨?_, ?_, fun _ before _ head _ => laterApart head before⟩
  · intro producer before chain exchanged
    rw [producers] at exchanged
    rcases valid.gaps.placed producer before chain exchanged with ⟨nonempty, inside, missing⟩
    refine ⟨nonempty, ?_, by rw [next]; exact missing⟩
    rw [split] at inside
    rw [dropped]
    refine infix_of_cons inside ?_
    rintro rfl
    exact stored missing
  · rw [producers]
    exact valid.gaps.single

theorem Valid.clearStub {head : Nat} (valid : Valid state nodes)
    (running : state.consumer = some (.clearStub head)) :
    Valid { state with queue := { state.queue with stubNext := 0 },
                       consumer := some (.exchange head) } nodes := by
  have fits := valid.phase _ running
  have absent : stub ∉ nodes := fits.2.2
  have next : ∀ node, node ≠ stub ->
      ({ state.queue with stubNext := 0 } : Queue).next node = state.queue.next node := by
    intro node record
    rw [next_record record, next_record record]
  have queued : ∀ node ∈ nodes,
      ({ state.queue with stubNext := 0 } : Queue).next node = state.queue.next node := by
    intro node listed
    refine next node ?_
    rintro rfl
    exact absent listed
  have apart : ∀ first previous, state.consumer ≠ some (.linkStub first previous) := by
    intro first previous wrong
    rw [running] at wrong
    cases wrong
  refine ⟨⟨valid.spans.initialized, valid.spans.head, valid.spans.tail, valid.spans.distinct,
    valid.spans.nonzero⟩, valid.custody, ?_, ?_, ?_, ?_⟩
  · exact valid.linked.weaken queued (fun _ _ _ pending => pending.consume rfl apart)
  · exact valid.chains.consume rfl (fun record isRecord _ => next record isRecord)
      (fun _ listed => .inl listed)
  · refine ⟨?_, valid.gaps.single, ?_⟩
    · intro producer before chain exchanged
      rcases valid.gaps.placed producer before chain exchanged with ⟨nonempty, inside, missing⟩
      exact ⟨nonempty, inside, (queued before (inside.subset (by simp))).trans missing⟩
    · intro producer before chain first exchanged wrong
      cases wrong
  · rintro phase same
    cases same
    exact ⟨fits.1, fits.2.1, absent, rfl⟩

theorem Valid.exchangeStub {head : Nat} (valid : Valid state nodes)
    (running : state.consumer = some (.exchange head)) :
    Valid { state with queue := { state.queue with tail := stub },
                       consumer := some (.linkStub head state.queue.tail) } (nodes ++ [stub]) := by
  have fits := valid.phase _ running
  have absent : stub ∉ nodes := fits.2.2.1
  have apart : ∀ first previous, state.consumer ≠ some (.linkStub first previous) := by
    intro first previous wrong
    rw [running] at wrong
    cases wrong
  rcases valid.spans.tail_append with ⟨front, split⟩
  have linked := valid.linked
  rw [split] at linked
  have missing : state.queue.next state.queue.tail = 0 := linked.last_next
  refine ⟨⟨valid.spans.initialized, ?_, ?_, ?_, ?_⟩, ?_, ?_, ?_, ?_, ?_⟩
  · show (nodes ++ [stub]).head? = some state.queue.head
    rw [List.head?_append, valid.spans.head]
    rfl
  · rw [List.getLast?_append]
    rfl
  · refine List.nodup_append.mpr ⟨valid.spans.distinct, by simp, ?_⟩
    rintro node listed other member rfl
    rw [List.mem_singleton.mp member] at listed
    exact absent listed
  · intro listed
    rcases List.mem_append.mp listed with earlier | later
    · exact valid.spans.nonzero earlier
    · exact stub_ne_zero (List.mem_singleton.mp later).symm
  · show state.pushed = state.popped ++ (nodes ++ [stub]).filter (fun node => node ≠ stub)
    have none : [stub].filter (fun node => node ≠ stub) = [] := by simp
    rw [List.filter_append, none, List.append_nil]
    exact valid.custody
  · rw [split]
    refine Linked.append ?_ ?_ ?_
    · exact linked.weaken (fun _ _ => rfl) (fun _ _ _ pending => pending.consume rfl apart)
    · show ({ state.queue with tail := stub } : Queue).next stub = 0
      rw [next_stub]
      exact fits.2.2.2
    · exact .inr ⟨rfl, head, rfl⟩
  · refine valid.chains.consume rfl (fun _ _ _ => rfl) ?_
    intro node listed
    rcases List.mem_append.mp listed with earlier | later
    · exact .inl earlier
    · exact .inr (List.mem_singleton.mp later)
  · refine ⟨?_, valid.gaps.single, ?_⟩
    · intro producer before chain exchanged
      rcases valid.gaps.placed producer before chain exchanged with ⟨nonempty, inside, none⟩
      exact ⟨nonempty, inside.trans (List.prefix_append nodes [stub]).isInfix, none⟩
    · intro producer before chain first exchanged wrong
      cases wrong
      exact valid.tail_not_awaited.1 producer chain exchanged
  · rintro phase same
    cases same
    refine ⟨fits.1, fits.2.1, ?_, missing⟩
    rw [split, List.append_assoc]
    exact (List.suffix_append front [state.queue.tail, stub]).isInfix

theorem Valid.linkStub {head previous : Nat} (valid : Valid state nodes)
    (running : state.consumer = some (.linkStub head previous)) :
    Valid { state with queue := state.queue.setNext previous stub,
                       consumer := some (.reload head) } nodes := by
  have fits := valid.phase _ running
  have follows : Adjoins nodes previous stub := fits.2.2.1
  refine ⟨valid.spans.setNext previous stub, valid.custody, ?_, ?_, ?_, ?_⟩
  · refine valid.linked.store valid.spans.distinct follows next_setNext_self
      (fun node different => next_setNext_other different) ?_
    intro node behind different pending
    rcases pending with waiting | ⟨_, first, linking⟩
    · exact .inl waiting
    · rw [running] at linking
      cases linking
      exact absurd rfl different
  · refine valid.chains.consume rfl ?_ (fun _ listed => .inl listed)
    intro record _ outside
    refine next_setNext_other ?_
    rintro rfl
    exact outside (adjoins_mem follows).1
  · refine ⟨?_, valid.gaps.single, ?_⟩
    · intro producer before chain exchanged
      rcases valid.gaps.placed producer before chain exchanged with ⟨nonempty, inside, missing⟩
      refine ⟨nonempty, inside, (next_setNext_other ?_).trans missing⟩
      rintro rfl
      exact valid.gaps.apart producer before chain head exchanged running
    · intro producer before chain first exchanged wrong
      cases wrong
  · rintro phase same
    cases same
    exact ⟨setNext_head.trans fits.1, fits.2.1, (adjoins_mem follows).2⟩

end Consumer

/-! ## Runs -/

section Steps

variable {state : State} {nodes : List Nat}

theorem consumer_apart {phase : Phase} (running : state.consumer = some phase)
    (another : ∀ head previous, phase ≠ .linkStub head previous) (head previous : Nat) :
    state.consumer ≠ some (.linkStub head previous) := by
  rw [running]
  intro wrong
  cases wrong
  exact another head previous rfl

theorem Valid.proceeds {phase later : Phase} (valid : Valid state nodes)
    (running : state.consumer = some phase)
    (another : ∀ head previous, phase ≠ .linkStub head previous)
    (laterAnother : ∀ head previous, later ≠ .linkStub head previous)
    (fits : later.Fits state.queue nodes) :
    Valid { state with consumer := some later } nodes := by
  refine valid.reads rfl rfl rfl rfl (consumer_apart running another)
    (consumer_apart rfl laterAnother) ?_
  intro next same
  cases same
  exact fits

theorem Valid.call (valid : Valid state nodes) (idle : state.consumer = none) :
    Valid { state with consumer := some .accept } nodes := by
  refine valid.reads rfl rfl rfl rfl ?_ ?_ ?_
  · intro head previous wrong
    rw [idle] at wrong
    cases wrong
  · intro head previous wrong
    cases wrong
  · intro phase same
    cases same
    trivial

theorem Valid.access {phase later : Phase} {queue : Queue} (valid : Valid state nodes)
    (running : state.consumer = some phase)
    (goes : access state.queue phase = (queue, .goes later)) :
    ∃ kept, Valid { state with queue := queue, consumer := some later } kept := by
  have fits := valid.phase phase running
  cases phase with
  | accept =>
    refine ⟨nodes, ?_⟩
    rw [CompletionQueue.access, if_neg (by rw [valid.spans.initialized]; simp)] at goes
    cases goes
    exact valid.proceeds running nofun
      nofun trivial
  | loadHead =>
    refine ⟨nodes, ?_⟩
    have another : ∀ first previous, Phase.loadHead ≠ Phase.linkStub first previous :=
      nofun
    rw [CompletionQueue.access] at goes
    split_ifs at goes with atStub
    · cases goes
      exact valid.proceeds running another nofun atStub
    · cases goes
      exact valid.proceeds running another nofun ⟨rfl, atStub⟩
  | loadStub =>
    refine ⟨nodes, ?_⟩
    rw [CompletionQueue.access] at goes
    split_ifs at goes with missing
    · cases goes
    · cases goes
      exact valid.proceeds running nofun
        nofun ⟨fits, rfl, missing⟩
  | passStub next =>
    refine ⟨nodes.tail, ?_⟩
    cases goes
    have stored : state.queue.next state.queue.head = next := by
      rw [fits.1, next_stub, fits.2.1]
    refine valid.dropHead (by rw [stored]; exact fits.2.2) ?_ rfl rfl ?_
      (consumer_apart running (fun _ _ wrong => by cases wrong)) ?_ ?_
    · rw [stored]
    · rw [fits.1]
      simp
    · intro head previous wrong
      cases wrong
    intro phase same
    cases same
    refine ⟨rfl, ?_⟩
    rintro rfl
    rcases valid.spans.head_cons with ⟨rest, split⟩
    have linked := valid.linked
    rw [split] at linked
    rcases linked.behind (by rw [stored]; exact stub_ne_zero) with ⟨more, behind⟩
    have distinct := valid.spans.distinct
    rw [split, behind, stored, fits.1] at distinct
    exact (List.nodup_cons.mp distinct).1 (by simp)
  | loadLink head =>
    refine ⟨nodes, ?_⟩
    have another : ∀ first previous, Phase.loadLink head ≠ Phase.linkStub first previous :=
      nofun
    rw [CompletionQueue.access] at goes
    split_ifs at goes with stored
    · cases goes
      exact valid.proceeds running another nofun ⟨fits.1, fits.2, rfl, stored⟩
    · cases goes
      exact valid.proceeds running another nofun fits
  | take head next => cases goes
  | loadTail head =>
    refine ⟨nodes, ?_⟩
    rw [CompletionQueue.access] at goes
    split_ifs at goes with elsewhere
    · cases goes
    cases goes
    refine valid.proceeds running nofun
      nofun ?_
    refine ⟨fits.1, fits.2, ?_⟩
    have only := valid.spans.alone (fits.1.trans (not_not.mp elsewhere))
    rw [only, fits.1]
    intro listed
    exact fits.2 (List.mem_singleton.mp listed).symm
  | clearStub head =>
    refine ⟨nodes, ?_⟩
    cases goes
    exact valid.clearStub running
  | exchange head =>
    refine ⟨nodes ++ [stub], ?_⟩
    cases goes
    exact valid.exchangeStub running
  | linkStub head previous =>
    refine ⟨nodes, ?_⟩
    cases goes
    exact valid.linkStub running
  | reload head =>
    refine ⟨nodes, ?_⟩
    rw [CompletionQueue.access] at goes
    split_ifs at goes with missing
    · cases goes
    · cases goes
      exact valid.proceeds running nofun
        nofun ⟨fits.1, fits.2.1, rfl, missing⟩

theorem answers_none {queue later : Queue} {phase : Phase}
    (answers : access queue phase = (later, .answers none)) : later = queue := by
  cases phase with
  | passStub next => cases answers
  | take head next => cases answers
  | clearStub head => cases answers
  | exchange head => cases answers
  | linkStub head previous => cases answers
  | accept => exact (congrArg Prod.fst answers).symm
  | loadHead => exact (congrArg Prod.fst answers).symm
  | loadStub => exact (congrArg Prod.fst answers).symm
  | loadLink head => exact (congrArg Prod.fst answers).symm
  | loadTail head => exact (congrArg Prod.fst answers).symm
  | reload head => exact (congrArg Prod.fst answers).symm

theorem answers_some {queue later : Queue} {phase : Phase} {record : Nat}
    (answers : access queue phase = (later, .answers (some record))) :
    ∃ next, phase = .take record next ∧ later = { queue with head := next } := by
  cases phase with
  | take head next =>
    cases answers
    exact ⟨next, rfl, rfl⟩
  | accept =>
    rw [CompletionQueue.access] at answers
    split_ifs at answers
    · cases answers
    · cases answers
  | loadHead =>
    rw [CompletionQueue.access] at answers
    split_ifs at answers
    · cases answers
    · cases answers
  | loadStub =>
    rw [CompletionQueue.access] at answers
    split_ifs at answers
    · cases answers
    · cases answers
  | loadLink head =>
    rw [CompletionQueue.access] at answers
    split_ifs at answers
    · cases answers
    · cases answers
  | loadTail head =>
    rw [CompletionQueue.access] at answers
    split_ifs at answers
    · cases answers
    · cases answers
  | reload head =>
    rw [CompletionQueue.access] at answers
    split_ifs at answers
    · cases answers
    · cases answers
  | passStub next => cases answers
  | clearStub head => cases answers
  | exchange head => cases answers
  | linkStub head previous => cases answers

end Steps

end CompletionQueue
end Carrick
