import Carrick.Zone.Reliance

namespace Carrick
namespace Zone

open Foundation
open Function (update_of_ne update_self)

/-!
# A park ends once and leaves nothing behind

A record is enrolled only when it has no entry, so an entry that an EL1 wake has vetted
stays the only one of its record for as long as it is queued.
-/

/-- How often a record's last park was ended: not yet while it is parked, and once
afterwards. -/
def Tally (wins : Option Nat) (claim : Claim) : Prop :=
  (claim.isParked = true -> wins = some 0) ∧
    (claim.isParked = false -> wins = none ∨ wins = some 1)

/-- A settled record has no entry, and every thread finds what it relies on.
While a record is parked its `wins` are 0, and after that 1 at most. -/
structure Settled (state : Parks) (queue chain : Nat -> List Nat) : Prop where
  formed : Formed state.zone queue chain
  clear : ∀ record, (state.zone.record record).claim.settled = true -> chain record = []
  tally : ∀ record, Tally (state.wins record) (state.zone.record record).claim
  relies : ∀ thread, Relies state queue chain thread (state.errand thread)

section Effects

variable {state later : Parks} {queue chain queueAfter chainAfter : Nat -> List Nat}
  {actor taken : Option Nat}

theorem Settled.after (settled : Settled state queue chain)
    (spares : Spares state later queue chain queueAfter chainAfter actor taken)
    (undisturbed : Undisturbed state queue chain taken)
    (formed : Formed later.zone queueAfter chainAfter)
    (clear : ∀ record, (later.zone.record record).claim.settled = true -> chainAfter record = [])
    (tally : ∀ record, Tally (later.wins record) (later.zone.record record).claim)
    (own : ∀ thread, actor = some thread ->
      Relies later queueAfter chainAfter thread (later.errand thread)) :
    Settled later queueAfter chainAfter where
  formed := formed
  clear := clear
  tally := tally
  relies := by
    intro thread
    by_cases acts : actor = some thread
    · exact own thread acts
    · exact (settled.relies thread).spared spares undisturbed (fun same => acts same.symm)

theorem undisturbed_none : Undisturbed state queue chain none :=
  fun _ _ _ _ _ _ _ _ _ => .inl (fun _ _ _ => Option.some_ne_none _)

theorem Settled.turn {thread : Nat} (settled : Settled state queue chain)
    (zone : later.zone = state.zone) (wins : later.wins = state.wins)
    (errands : ∀ other, other ≠ thread -> later.errand other = state.errand other)
    (locks : ∀ bucket other, other ≠ thread -> state.lock bucket = some other ->
      later.lock bucket = some other)
    (own : Relies later queue chain thread (later.errand thread)) : Settled later queue chain := by
  have spares : Spares state later queue chain queue chain (some thread) none := by
    constructor
    case errands =>
      intro other apart
      exact errands other (fun same => apart (congrArg some same))
    case locks =>
      intro bucket other apart
      exact locks bucket other (fun same => apart (congrArg some same))
    case queues => exact fun _ _ _ _ => rfl
    case keeps =>
      intro bucket other _ _
      rw [zone]
      exact Keeps.refl
    case parked =>
      intro record seq parked
      rw [zone] at parked
      exact .inl ⟨parked, rfl⟩
  refine settled.after spares undisturbed_none ?_ ?_ ?_ ?_
  · rw [zone]
    exact settled.formed
  · rw [zone]
    exact settled.clear
  · rw [zone, wins]
    exact settled.tally
  · intro other acts
    cases acts
    exact own

theorem Settled.claim {record : Nat} {claim : Claim} (settled : Settled state queue chain)
    (zone : later.zone =
      state.zone.setRecord record { state.zone.record record with claim := claim })
    (errands : later.errand = state.errand) (locks : later.lock = state.lock)
    (unparked : claim.isParked = false)
    (was : (state.zone.record record).claim.isParked = false ∨ taken = some record)
    (undisturbed : Undisturbed state queue chain taken)
    (clear : claim.settled = true -> chain record = [])
    (tally : ∀ other, Tally (later.wins other) (later.zone.record other).claim) :
    Settled later queue chain := by
  have claims : ∀ other, (later.zone.record other).claim =
      if other = record then claim else (state.zone.record other).claim := by
    intro other
    rw [zone, setRecord_record]
    split_ifs
    · rfl
    · rfl
  have parked : ∀ other seq, (later.zone.record other).claim = .parked seq ->
      (state.zone.record other).claim = .parked seq := by
    intro other seq isParked
    rw [claims] at isParked
    split_ifs at isParked with same
    · rw [isParked] at unparked
      cases unparked
    · exact isParked
  have spares : Spares state later queue chain queue chain none taken := by
    constructor
    case errands =>
      intro other _
      rw [errands]
    case locks =>
      intro bucket other _ held
      rw [locks]
      exact held
    case queues => exact fun _ _ _ _ => rfl
    case keeps =>
      intro bucket other _ _
      constructor
      case bares =>
        intro id _
        rw [zone]
        rfl
      case singles => exact fun _ _ single => single
      case wakes => exact fun _ _ _ isParked => parked _ _ isParked
      case lasts =>
        intro id seq _ _ untaken isParked
        rw [claims]
        split_ifs with same
        · rcases was with before | named
          · rw [<- same, isParked] at before
            cases before
          · exact absurd (named.trans (congrArg some same.symm)).symm untaken
        · exact isParked
    case parked => exact fun other seq isParked => .inl ⟨parked other seq isParked, rfl⟩
  refine settled.after spares undisturbed ?_ ?_ tally nofun
  · rw [zone]
    exact settled.formed.setRecord rfl rfl
  intro other isSettled
  rw [claims] at isSettled
  split_ifs at isSettled with same
  · rw [same]
    exact clear isSettled
  · exact settled.clear other isSettled

theorem Settled.free {bucket id : Nat} {claim : Claim} (settled : Settled state queue chain)
    (freed : Freed state.zone later.zone queue chain id claim) (inQueue : id ∈ queue bucket)
    (locked : state.lock bucket = none ∨ state.lock bucket = actor)
    (errands : ∀ other, some other ≠ actor -> later.errand other = state.errand other)
    (locks : later.lock = state.lock) (unparked : claim.isParked = false)
    (clear : claim.settled = true -> chain (state.zone.entry id).record = [id])
    (tally : ∀ other, Tally (later.wins other) (later.zone.record other).claim)
    (own : ∀ thread, actor = some thread ->
      Relies later (without [id] queue) (without [id] chain) thread (later.errand thread)) :
    Settled later (without [id] queue) (without [id] chain) := by
  have allocated := ((settled.formed.listed bucket id).mp inQueue).1
  have inChain : id ∈ chain (state.zone.entry id).record :=
    (settled.formed.held _ id).mpr ⟨allocated, rfl⟩
  have onlyChain : ∀ other, other ≠ (state.zone.entry id).record -> id ∉ chain other :=
    fun other apart inOther => apart (settled.formed.chained.apart other _ id inOther inChain)
  have parked : ∀ other seq, (later.zone.record other).claim = .parked seq ->
      other ≠ (state.zone.entry id).record ∧ (state.zone.record other).claim = .parked seq := by
    intro other seq isParked
    by_cases same : other = (state.zone.entry id).record
    · rw [same, freed.claimed] at isParked
      rw [isParked] at unparked
      cases unparked
    · rw [freed.records other same] at isParked
      exact ⟨same, isParked⟩
  have absent : ∀ other thread, some thread ≠ actor -> state.lock other = some thread ->
      id ∉ queue other := by
    intro other thread apart held inOther
    have same := settled.formed.queued.apart other bucket id inOther inQueue
    rw [same] at held
    rcases locked with free | mine
    · rw [free] at held
      cases held
    · exact apart (held.symm.trans mine)
  have spares : Spares state later queue chain (without [id] queue) (without [id] chain) actor
      none := by
    constructor
    case errands => exact errands
    case locks =>
      intro other thread _ held
      rw [locks]
      exact held
    case queues => exact fun other thread apart held => without_absent (absent other thread apart held)
    case keeps =>
      intro other thread apart held
      exact freed.keeps settled.formed inQueue unparked (absent other thread apart held)
    case parked =>
      intro other seq isParked
      rcases parked other seq isParked with ⟨apart, before⟩
      exact .inl ⟨before, without_absent (onlyChain other apart)⟩
  refine settled.after spares undisturbed_none freed.formed ?_ tally own
  intro other isSettled
  by_cases same : other = (state.zone.entry id).record
  · rw [same, freed.claimed] at isSettled
    unfold without
    rw [same, clear isSettled]
    simp
  · rw [freed.records other same] at isSettled
    rw [without_absent (onlyChain other same)]
    exact settled.clear other isSettled

theorem Settled.not_settled {bucket id record : Nat} (settled : Settled state queue chain)
    (was : (state.zone.record record).claim.settled = true) (inQueue : id ∈ queue bucket) :
    (state.zone.entry id).record ≠ record := by
  intro same
  have allocated := ((settled.formed.listed bucket id).mp inQueue).1
  have inChain := (settled.formed.held record id).mpr ⟨allocated, same⟩
  rw [settled.clear record was] at inChain
  cases inChain

/-- A settled record is parked under the locks of its buckets, or its enrolment is
undone. -/
theorem Settled.enrolled {record : Nat} (settled : Settled state queue chain)
    (was : (state.zone.record record).claim.settled = true)
    (formed : Formed later.zone queueAfter chainAfter)
    (queues : ∀ bucket other, state.lock bucket = some other ->
      queueAfter bucket = queue bucket)
    (chains : ∀ other, other ≠ record -> chainAfter other = chain other)
    (entries : ∀ id bucket, id ∈ queue bucket ->
      (later.zone.entry id).bare = (state.zone.entry id).bare)
    (records : ∀ other, other ≠ record ->
      (later.zone.record other).claim = (state.zone.record other).claim)
    (errands : later.errand = state.errand) (locks : later.lock = state.lock)
    (outcome : (∃ seq, (later.zone.record record).claim = .parked seq ∧
        ∀ thread entry bucket, state.errand thread ≠ .expiring record seq entry bucket) ∨
      ((later.zone.record record).claim = (state.zone.record record).claim ∧
        chainAfter record = []))
    (tally : ∀ other, Tally (later.wins other) (later.zone.record other).claim) :
    Settled later queueAfter chainAfter := by
  have spares : Spares state later queue chain queueAfter chainAfter none none := by
    constructor
    case errands =>
      intro other _
      rw [errands]
    case locks =>
      intro bucket other _ held
      rw [locks]
      exact held
    case queues => exact fun bucket other _ held => queues bucket other held
    case keeps =>
      intro bucket other _ held
      constructor
      case bares => exact fun id inQueue => entries id bucket inQueue
      case singles =>
        intro id inQueue single
        rw [chains _ (settled.not_settled was inQueue)]
        exact single
      case wakes =>
        intro id seq inQueue isParked
        rw [records _ (settled.not_settled was inQueue)] at isParked
        exact isParked
      case lasts =>
        intro id seq inQueue _ _ isParked
        rw [records _ (settled.not_settled was inQueue)]
        exact isParked
    case parked =>
      intro other seq isParked
      by_cases same : other = record
      · rw [same] at isParked ⊢
        rcases outcome with ⟨parkedSeq, parkedNow, fresh⟩ | ⟨kept, _⟩
        · rw [parkedNow] at isParked
          cases isParked
          exact .inr fresh
        · rw [kept] at isParked
          rw [isParked] at was
          cases was
      · rw [records other same] at isParked
        exact .inl ⟨isParked, chains other same⟩
  refine settled.after spares undisturbed_none formed ?_ tally nofun
  intro other isSettled
  by_cases same : other = record
  · rw [same] at isSettled ⊢
    rcases outcome with ⟨parkedSeq, parkedNow, _⟩ | ⟨_, none⟩
    · rw [parkedNow] at isSettled
      cases isSettled
    · exact none
  · rw [records other same] at isSettled
    rw [chains other same]
    exact settled.clear other isSettled

/-- An entry moves from a queue to another under both their locks. -/
theorem Settled.moved {source target destination id thread : Nat}
    (settled : Settled state queue chain)
    (moved : Moved state.zone later.zone queue chain target destination [id])
    (inQueue : id ∈ queue source) (fromLocked : state.lock source = some thread)
    (toLocked : state.lock target = some thread)
    (errands : ∀ other, other ≠ thread -> later.errand other = state.errand other)
    (locks : later.lock = state.lock) (wins : later.wins = state.wins)
    (own : Relies later (appended target [id] queue) chain thread (later.errand thread)) :
    Settled later (appended target [id] queue) chain := by
  have absent : ∀ bucket other, some other ≠ some thread ->
      state.lock bucket = some other -> id ∉ queue bucket := by
    intro bucket other apart held inBucket
    have same := settled.formed.queued.apart bucket source id inBucket inQueue
    rw [same, fromLocked] at held
    exact apart held.symm
  have spares : Spares state later queue chain (appended target [id] queue) chain (some thread)
      none := by
    constructor
    case errands =>
      intro other apart
      exact errands other (fun same => apart (congrArg some same))
    case locks =>
      intro bucket other _ held
      rw [locks]
      exact held
    case queues =>
      intro bucket other apart held
      unfold appended
      rw [without_absent (absent bucket other apart held), if_neg, List.append_nil]
      intro same
      rw [same, toLocked] at held
      exact apart held.symm
    case keeps =>
      intro bucket other apart held
      constructor
      case bares =>
        intro node listed
        refine moved.entries node ?_
        rw [List.mem_singleton]
        exact fun same => absent bucket other apart held (same ▸ listed)
      case singles => exact fun _ _ single => single
      case wakes =>
        intro node seq _ isParked
        rw [moved.records] at isParked
        exact isParked
      case lasts =>
        intro node seq _ _ _ isParked
        rw [moved.records]
        exact isParked
    case parked =>
      intro record seq isParked
      rw [moved.records] at isParked
      exact .inl ⟨isParked, rfl⟩
  refine settled.after spares undisturbed_none moved.formed ?_ ?_ ?_
  · rw [moved.records]
    exact settled.clear
  · rw [moved.records, wins]
    exact settled.tally
  · intro other acts
    cases acts
    exact own

end Effects

/-! ## Cursors -/

section Cursors

variable {zone : Tables} {queue chain : Nat -> List Nat} {bucket cursor : Nat}
  {front rest : List Nat}

theorem split_head (formed : Formed zone queue chain) :
    Split queue bucket (zone.bucket bucket).head [] (queue bucket) :=
  ⟨rfl, formed.queued.head_eq⟩

theorem Split.here (split : Split queue bucket cursor front rest) (nonzero : cursor ≠ 0) :
    ∃ further, rest = cursor :: further := by
  cases rest with
  | nil => exact absurd split.2 nonzero
  | cons id further =>
    have same : cursor = id := split.2
    rw [same]
    exact ⟨further, rfl⟩

theorem Split.listed (split : Split queue bucket cursor front (cursor :: rest)) :
    cursor ∈ queue bucket := by
  rw [split.1]
  simp

theorem Split.pass (formed : Formed zone queue chain)
    (split : Split queue bucket cursor front (cursor :: rest)) :
    Split queue bucket (zone.entry cursor).next (front ++ [cursor]) rest := by
  refine ⟨?_, next_eq formed.queued split.1⟩
  rw [split.1]
  simp

theorem Split.hit (formed : Formed zone queue chain)
    (split : Split queue bucket cursor front (cursor :: rest)) :
    Split (without [cursor] queue) bucket (zone.entry cursor).next front rest :=
  ⟨without_middle (formed.queued.nodup bucket) split.1, next_eq formed.queued split.1⟩

/-- The cursor has gone to the end of a queue, which may be the one that it was on. -/
theorem Split.moved {target : Nat} (formed : Formed zone queue chain)
    (split : Split queue bucket cursor front (cursor :: rest)) :
    ∃ before after, Split (appended target [cursor] queue) bucket (zone.entry cursor).next before
      after := by
  have next := next_eq formed.queued split.1
  have shape := split.1
  rw [<- List.append_nil rest] at shape
  have queues := @appended_middle queue bucket target cursor front rest []
    (formed.queued.nodup bucket) shape
  rw [List.nil_append] at queues
  cases rest with
  | nil => exact ⟨appended target [cursor] queue bucket, [], (List.append_nil _).symm, next⟩
  | cons id further => exact ⟨front, _, queues, next⟩

theorem Split.nodup (formed : Formed zone queue chain)
    (split : Split queue bucket cursor front (cursor :: rest)) : cursor ∉ rest := by
  have distinct := formed.queued.nodup bucket
  rw [split.1] at distinct
  exact (List.nodup_cons.mp distinct.of_append_right).1

end Cursors

theorem single_of_count {zone : Tables} {queue chain : Nat -> List Nat} {record id : Nat}
    (formed : Formed zone queue chain) (count : (zone.record record).entryCount = 1)
    (inChain : id ∈ chain record) : chain record = [id] := by
  rw [formed.chained.count] at count
  rcases List.length_eq_one_iff.mp count with ⟨only, entries⟩
  rw [entries, List.mem_singleton] at inChain
  rw [entries, inChain]

theorem eligible_listed {zone : Tables} {queue chain : Nat -> List Nat}
    {bucket mm uaddr bitset id record : Nat} (formed : Formed zone queue chain)
    (inQueue : id ∈ queue bucket) (found : zone.eligible mm uaddr bitset id = some record) :
    id ∈ chain record ∧ (zone.entry id).record = record ∧
      (zone.record record).claim = .parked (zone.entry id).seq := by
  rcases eligible_some.mp found with ⟨_, _, _, _, parked, named⟩
  rw [named] at parked
  exact ⟨(formed.held record id).mpr ⟨((formed.listed bucket id).mp inQueue).1, named⟩, named,
    parked⟩

/-! ## Runs -/

/-- Every waiter of a futex on a bucket waits on it alone. -/
def Alone (zone : Tables) (bucket mm uaddr bitset : Nat) : Prop :=
  ∀ id record, zone.entryMap id = true -> (zone.entry id).bucket = bucket ->
    zone.eligible mm uaddr bitset id = some record -> (zone.record record).entryCount = 1

namespace Parks

/-- The host takes a waiter that an EL1 wake under way has vetted only where no waiter
of that futex waits on several futexes; `expire_timer` ends only parks on one futex; and
no park takes a sequence number that an `expire_timer` under way still holds. -/
def Meets (state : Parks) : Deed -> Prop
  | .claimHost record =>
    ∀ thread bucket mm uaddr bitset cursor left vetted id,
      state.errand thread = .waking bucket mm uaddr bitset cursor left vetted ->
      id ∈ vetted -> state.zone.entryMap id = true -> (state.zone.entry id).bucket = bucket ->
      (state.zone.entry id).record = record -> Alone state.zone bucket mm uaddr bitset
  | .plan thread _ =>
    ∀ bucket mm uaddr bitset count cursor vetted,
      state.errand thread = .planning bucket mm uaddr bitset count cursor vetted ->
      (cursor = 0 ∨ vetted.length = count) ->
      (∀ id ∈ vetted, state.zone.eligible mm uaddr bitset id ≠ none) ∨
        Alone state.zone bucket mm uaddr bitset
  | .settle thread _ _ =>
    ∀ record seq entry bucket, state.errand thread = .expiring record seq entry bucket ->
      (state.zone.entry entry).bucket = bucket ->
      (state.zone.record record).claim = .parked seq -> (state.zone.record record).entryCount = 1
  | .park record _ =>
    ∀ thread entry bucket,
      state.errand thread ≠ .expiring record (state.zone.nextSeq record) entry bucket
  | _ => True

def Step (state : Parks) (deed : Deed) (later : Parks) : Prop :=
  state.next deed = some later

/-- The steps that meet the condition. -/
def Careful (state : Parks) (deed : Deed) (later : Parks) : Prop :=
  state.Step deed later ∧ state.Meets deed

/-- Nothing is parked and nobody is under way. -/
def fresh : Parks where
  zone := empty
  lock := fun _ => none
  errand := fun _ => .idle
  wins := fun _ => none

def Starts (state : Parks) : Prop :=
  state = fresh

end Parks

/-! ## Steps -/

section Steps

variable {state : Parks} {queue chain : Nat -> List Nat}

theorem Settled.tally_won {record : Nat} {zone : Tables} (settled : Settled state queue chain)
    (was : (state.zone.record record).claim.isParked = true)
    (now : (zone.record record).claim.isParked = false)
    (others : ∀ other, other ≠ record ->
      (zone.record other).claim = (state.zone.record other).claim) (other : Nat) :
    Tally ((state.won record zone).wins other) (zone.record other).claim := by
  unfold Parks.won
  dsimp only
  by_cases same : other = record
  · rw [same, update_self, (settled.tally record).1 was]
    exact ⟨fun wrong => absurd (now.symm.trans wrong) Bool.false_ne_true, fun _ => .inr rfl⟩
  · rw [update_of_ne same, others other same]
    exact settled.tally other

/-- The park of the record of a queued entry ends, and the entry is freed. -/
theorem Settled.won {actor : Option Nat} {later : Parks} {bucket id : Nat} {value : ZoneRecord}
    (settled : Settled state queue chain) (inQueue : id ∈ queue bucket)
    (was : (state.zone.record (state.zone.entry id).record).claim.isParked = true)
    (first : value.firstEntry = (state.zone.record (state.zone.entry id).record).firstEntry)
    (count : value.entryCount = (state.zone.record (state.zone.entry id).record).entryCount)
    (unparked : value.claim.isParked = false)
    (clear : value.claim.settled = true -> chain (state.zone.entry id).record = [id])
    (locked : state.lock bucket = none ∨ state.lock bucket = actor)
    (zone : later.zone = ((state.zone.setRecord (state.zone.entry id).record value).unlink bucket
      id).dropEntry (state.zone.entry id).record id)
    (wins : later.wins = (state.won (state.zone.entry id).record later.zone).wins)
    (errands : ∀ other, some other ≠ actor -> later.errand other = state.errand other)
    (locks : later.lock = state.lock)
    (own : Freed state.zone later.zone queue chain id value.claim -> ∀ thread,
      actor = some thread ->
      Relies later (without [id] queue) (without [id] chain) thread (later.errand thread)) :
    Settled later (without [id] queue) (without [id] chain) := by
  have free := freed settled.formed inQueue first count
  rw [<- zone] at free
  refine settled.free free inQueue locked errands locks unparked clear ?_ (own free)
  intro other
  rw [wins]
  refine settled.tally_won was ?_ ?_ other
  · rw [free.claimed]
    exact unparked
  · intro another apart
    rw [free.records another apart]

theorem park_settled {record : Nat} {waits : List Wait} (settled : Settled state queue chain)
    (owned : record ≠ 0) (was : (state.zone.record record).claim.settled = true)
    (unlocked : ∀ wait ∈ waits, state.lock (bucketOf wait.mm wait.uaddr) = none)
    (fresh : ∀ thread entry bucket,
      state.errand thread ≠ .expiring record (state.zone.nextSeq record) entry bucket) :
    ∃ queueAfter chainAfter, Settled (state.park record waits) queueAfter chainAfter := by
  rcases @enrol_enrolled queue chain state.zone record (state.zone.nextSeq record) owned waits 0
    settled.formed with ⟨queueAfter, chainAfter, enrolled⟩
  have queues : ∀ bucket other, state.lock bucket = some other ->
      queueAfter bucket = queue bucket := by
    intro bucket other held
    refine enrolled.queues bucket ?_
    intro wait listed same
    rw [<- same, unlocked wait listed] at held
    cases held
  have entries : ∀ id bucket, id ∈ queue bucket ->
      ((state.zone.enrol record (state.zone.nextSeq record) 0 waits).1.entry id).bare =
        (state.zone.entry id).bare :=
    fun id bucket inQueue =>
      (enrolled.entries id ((settled.formed.listed bucket id).mp inQueue).1).2
  unfold Parks.park
  dsimp only
  by_cases published : (state.zone.enrol record (state.zone.nextSeq record) 0 waits).2 = true ∧
      (state.zone.record record).claim.parks = true
  · rw [if_pos published]
    have claims : ∀ other, (((state.zone.enrol record (state.zone.nextSeq record) 0
        waits).1.publishPark record (state.zone.nextSeq record)).record other).claim =
        if other = record then .parked (state.zone.nextSeq record)
        else (state.zone.record other).claim := by
      intro other
      unfold Tables.publishPark
      rw [setRecord_record]
      by_cases same : other = record
      · rw [if_pos same, if_pos same]
      · rw [if_neg same, if_neg same, enrolled.records other same]
    refine ⟨queueAfter, chainAfter, settled.enrolled was (enrolled.formed.setRecord rfl rfl) queues
      enrolled.chains entries ?_ rfl rfl (.inl ⟨state.zone.nextSeq record, ?_, fresh⟩) ?_⟩
    · intro other apart
      rw [claims, if_neg apart]
    · rw [claims, if_pos rfl]
    intro other
    rw [claims]
    by_cases same : other = record
    · rw [if_pos same, same]
      exact ⟨fun _ => update_self _ _ _, nofun⟩
    · rw [if_neg same]
      dsimp only
      rw [update_of_ne same]
      exact settled.tally other
  rw [if_neg published]
  have enough : (chainAfter record).length < zoneEntries + 1 :=
    Nat.lt_succ_of_le (enrolled.formed.chain_length_le record)
  rcases unlinkAll_undone enrolled.formed enough with ⟨queueUndone, chainUndone, undone⟩
  have foreign : ∀ id bucket other, state.lock bucket = some other ->
      id ∈ chainAfter record -> id ∉ queueAfter bucket := by
    intro id bucket other held inChain inQueue
    rw [queues bucket other held] at inQueue
    have allocated := ((settled.formed.listed bucket id).mp inQueue).1
    rcases enrolled.fresh id inChain with older | free
    · rw [settled.clear record was] at older
      cases older
    · rw [free] at allocated
      cases allocated
  have claims : ∀ other, (((state.zone.enrol record (state.zone.nextSeq record) 0
      waits).1.unlinkAll record (zoneEntries + 1)).record other).claim =
      (state.zone.record other).claim := by
    intro other
    by_cases same : other = record
    · rw [same, undone.claim, enrolled.claim]
    · rw [undone.records other same, enrolled.records other same]
  refine ⟨queueUndone, chainUndone, settled.enrolled was undone.formed ?_ ?_ ?_
    (fun other _ => claims other) rfl rfl (.inr ⟨claims record, undone.empty⟩) ?_⟩
  · intro bucket other held
    rw [undone.queues bucket (fun id inChain => foreign id bucket other held inChain)]
    exact queues bucket other held
  · intro other apart
    rw [undone.chains other apart, enrolled.chains other apart]
  · intro id bucket inQueue
    have allocated := ((settled.formed.listed bucket id).mp inQueue).1
    refine (undone.entries id ?_).trans (entries id bucket inQueue)
    intro inChain
    rcases enrolled.fresh id inChain with older | free
    · rw [settled.clear record was] at older
      cases older
    · rw [free] at allocated
      cases allocated
  · intro other
    rw [claims]
    exact settled.tally other

variable {thread bucket : Nat}

theorem Settled.dropped (settled : Settled state queue chain)
    (held : state.lock bucket = some thread) :
    Settled ((state.drop bucket).setErrand thread .idle) queue chain := by
  refine @Settled.turn _ _ _ _ thread settled rfl rfl ?_ ?_ ?_
  · intro other apart
    exact update_of_ne apart _ _
  · intro other another apart otherHeld
    unfold Parks.setErrand Parks.drop
    dsimp only
    rw [update_of_ne]
    · exact otherHeld
    · intro same
      rw [same, held] at otherHeld
      cases otherHeld
      exact apart rfl
  · unfold Parks.setErrand
    dsimp only
    rw [update_self]
    trivial

theorem Settled.goes {errand : Errand} (settled : Settled state queue chain)
    (own : Relies state queue chain thread errand) :
    Settled (state.setErrand thread errand) queue chain := by
  refine @Settled.turn _ _ _ _ thread settled rfl rfl ?_ (fun _ _ _ held => held) ?_
  · intro other apart
    exact update_of_ne apart _ _
  unfold Parks.setErrand
  dsimp only
  rw [update_self]
  cases errand with
  | idle => exact own
  | planning bucket mm uaddr bitset count cursor vetted => exact own
  | waking bucket mm uaddr bitset cursor left vetted => exact own
  | serving batch bucket mm uaddr bitset cursor left => exact own
  | moving source target mm origin destination cursor left => exact own
  | picked record seq => exact own
  | expiring record seq entry bucket => exact own

theorem alone_plain {mm uaddr bitset : Nat} (settled : Settled state queue chain)
    (alone : Alone state.zone bucket mm uaddr bitset) :
    Plain state.zone chain mm uaddr bitset (queue bucket) := by
  intro id record inQueue found
  have placed := (settled.formed.listed bucket id).mp inQueue
  exact single_of_count settled.formed (alone id record placed.1 placed.2 found)
    (eligible_listed settled.formed inQueue found).1

theorem planAt_settled {mm uaddr bitset count cursor : Nat} {vetted : List Nat}
    {placeable : Bool} (settled : Settled state queue chain)
    (doing : state.errand thread = .planning bucket mm uaddr bitset count cursor vetted)
    (meets : state.Meets (.plan thread placeable)) :
    Settled (state.planAt thread bucket mm uaddr bitset count cursor vetted placeable) queue chain := by
  have relies := settled.relies thread
  rw [doing] at relies
  rcases relies with ⟨locked, nodup, front, rest, split, inside, scanned⟩
  unfold Parks.planAt
  by_cases ended : cursor = 0 ∨ vetted.length = count
  · rw [if_pos ended]
    refine settled.goes ⟨locked, [], queue bucket, split_head settled.formed, ?_⟩
    rcases meets _ _ _ _ _ _ _ doing ended with waiting | alone
    · refine .inr ⟨front, rest, split.1, scanned, ?_, ?_⟩
      · intro id listed isVetted
        cases found : state.zone.eligible mm uaddr bitset id with
        | none => exact absurd found (waiting id isVetted)
        | some record =>
          rw [(eligible_some.mp found).2.2.2.2.2]
      · refine (List.subperm_of_subset nodup ?_).length_le
        intro id isVetted
        rw [List.mem_filter]
        exact ⟨inside isVetted, decide_eq_true isVetted⟩
    · exact .inl (alone_plain settled alone)
  rw [if_neg ended]
  rcases split.here (fun zero => ended (.inl zero)) with ⟨further, shape⟩
  subst shape
  cases found : state.zone.eligible mm uaddr bitset cursor with
  | none =>
    refine settled.goes ⟨locked, nodup, front ++ [cursor], further, split.pass settled.formed,
      fun id isVetted => List.mem_append_left _ (inside isVetted), ?_, ?_⟩
    · intro id record listed eligible
      rcases List.mem_append.mp listed with before | here
      · exact scanned.waiters id record before eligible
      · rw [List.mem_singleton.mp here, found] at eligible
        cases eligible
    · intro id listed isVetted
      exact scanned.singles id (inside isVetted) isVetted
  | some record =>
    dsimp only
    by_cases refused : (state.zone.record record).entryCount ≠ 1 ∨ placeable = false
    · rw [if_pos refused]
      exact settled.dropped locked
    rw [if_neg refused]
    rw [not_or, not_not] at refused
    have listed := eligible_listed settled.formed split.listed found
    have single : chain (state.zone.entry cursor).record = [cursor] := by
      rw [listed.2.1]
      exact single_of_count settled.formed refused.1 listed.1
    have notBefore : cursor ∉ front := by
      have distinct := settled.formed.queued.nodup bucket
      rw [split.1] at distinct
      intro before
      exact List.disjoint_of_nodup_append distinct before List.mem_cons_self
    refine settled.goes ⟨locked, ?_, front ++ [cursor], further, split.pass settled.formed,
      ?_, ?_, ?_⟩
    · exact List.nodup_cons.mpr ⟨fun isVetted => notBefore (inside isVetted), nodup⟩
    · intro id isVetted
      rcases List.mem_cons.mp isVetted with same | older
      · rw [same]
        simp
      · exact List.mem_append_left _ (inside older)
    · intro id other isListed eligible
      rcases List.mem_append.mp isListed with before | here
      · exact List.mem_cons_of_mem _ (scanned.waiters id other before eligible)
      · rw [List.mem_singleton.mp here]
        exact List.mem_cons_self
    intro id _ isVetted
    rcases List.mem_cons.mp isVetted with same | older
    · rw [same]
      exact single
    · exact scanned.singles id (inside older) older

theorem wakeAt_settled {mm uaddr bitset cursor left slot : Nat} {vetted : List Nat}
    (settled : Settled state queue chain)
    (doing : state.errand thread = .waking bucket mm uaddr bitset cursor left vetted) :
    ∃ queueAfter chainAfter, Settled
      (state.wakeAt thread bucket mm uaddr bitset cursor left vetted slot) queueAfter chainAfter := by
  have relies := settled.relies thread
  rw [doing] at relies
  rcases relies with ⟨locked, front, rest, split, either⟩
  unfold Parks.wakeAt
  by_cases ended : cursor = 0 ∨ left = 0
  · rw [if_pos ended]
    exact ⟨queue, chain, settled.dropped locked⟩
  rw [if_neg ended]
  rw [not_or] at ended
  rcases split.here ended.1 with ⟨further, shape⟩
  subst shape
  cases found : state.zone.eligible mm uaddr bitset cursor with
  | none =>
    refine ⟨queue, chain, settled.goes ⟨locked, front ++ [cursor], further,
      split.pass settled.formed, ?_⟩⟩
    rcases either with plain | enough
    · exact .inl (plain.mono (fun id listed => List.mem_cons_of_mem _ listed))
    · exact .inr ((enough.step ended.2).1 found)
  | some record =>
    rcases eligible_listed settled.formed split.listed found with ⟨inChain, named, parked⟩
    subst named
    have single : chain (state.zone.entry cursor).record = [cursor] := by
      rcases either with plain | enough
      · exact plain cursor _ List.mem_cons_self found
      · exact ((enough.step ended.2).2 _ found).1
    refine ⟨_, _, @Settled.won _ _ _ (some thread) _ bucket cursor
      { state.zone.record (state.zone.entry cursor).record with
        claim := .queued slot (state.zone.entry cursor).seq
        result := (state.zone.entry cursor).index
        handback := some (state.zone.wokenHandback (state.zone.entry cursor).record) } settled
      split.listed ?_ rfl rfl rfl (fun _ => single) (.inr locked) rfl rfl ?_ rfl ?_⟩
    · rw [parked]
      rfl
    · intro other apart
      exact update_of_ne (fun same => apart (congrArg some same)) _ _
    intro free other acts
    cases acts
    have keeps := free.keeps settled.formed split.listed rfl (split.nodup settled.formed)
    unfold Parks.setErrand
    dsimp only
    rw [update_self]
    refine ⟨locked, front, further, split.hit settled.formed, ?_⟩
    rcases either with plain | enough
    · exact .inl ((plain.mono (fun id listed => List.mem_cons_of_mem _ listed)).kept keeps)
    · exact .inr (((enough.step ended.2).2 _ found).2.kept keeps (fun _ listed => listed)
        (fun _ _ _ => Option.some_ne_none _))

theorem hostClaim_cases {record seq : Nat} {batch : Bool} {place : Option Nat} (zone : Tables) :
    (∃ slot, zone.hostClaim record seq batch place = .queued slot seq ∧
        (zone.record record).entryCount = 1) ∨
      zone.hostClaim record seq batch place = .transferring seq false false := by
  unfold Tables.hostClaim
  split_ifs with alone
  · cases place with
    | none => exact .inr rfl
    | some slot => exact .inl ⟨slot, rfl, alone.2⟩
  · exact .inr rfl

theorem serveAt_settled {mm uaddr bitset cursor left : Nat} {batch : Bool}
    {place : Option Nat} (settled : Settled state queue chain)
    (doing : state.errand thread = .serving batch bucket mm uaddr bitset cursor left) :
    ∃ queueAfter chainAfter, Settled
      (state.serveAt thread batch bucket mm uaddr bitset cursor left place) queueAfter chainAfter := by
  have relies := settled.relies thread
  rw [doing] at relies
  rcases relies with ⟨locked, front, rest, split⟩
  unfold Parks.serveAt
  by_cases ended : cursor = 0 ∨ left = 0
  · rw [if_pos ended]
    exact ⟨queue, chain, settled.dropped locked⟩
  rw [if_neg ended]
  rw [not_or] at ended
  rcases split.here ended.1 with ⟨further, shape⟩
  subst shape
  cases found : state.zone.eligible mm uaddr bitset cursor with
  | none =>
    exact ⟨queue, chain, settled.goes ⟨locked, front ++ [cursor], further,
      split.pass settled.formed⟩⟩
  | some record =>
    rcases eligible_listed settled.formed split.listed found with ⟨inChain, named, parked⟩
    subst named
    have taken := @hostClaim_cases (state.zone.entry cursor).record (state.zone.entry cursor).seq
      batch place state.zone
    refine ⟨_, _, @Settled.won _ _ _ (some thread) _ bucket cursor
      { state.zone.record (state.zone.entry cursor).record with
        claim := state.zone.hostClaim (state.zone.entry cursor).record
          (state.zone.entry cursor).seq batch place
        result := (state.zone.entry cursor).index
        handback := some (if batch then .woken
          else state.zone.wokenHandback (state.zone.entry cursor).record) } settled
      split.listed ?_ rfl rfl ?_ ?_ (.inr locked) rfl rfl ?_ rfl ?_⟩
    · rw [parked]
      rfl
    · rcases taken with ⟨slot, queued, _⟩ | transferring
      · dsimp only
        rw [queued]
        rfl
      · dsimp only
        rw [transferring]
        rfl
    · intro isSettled
      rcases taken with ⟨slot, _, count⟩ | transferring
      · exact single_of_count settled.formed count inChain
      · dsimp only at isSettled
        rw [transferring] at isSettled
        cases isSettled
    · intro other apart
      exact update_of_ne (fun same => apart (congrArg some same)) _ _
    intro _ other acts
    cases acts
    unfold Parks.setErrand
    dsimp only
    rw [update_self]
    exact ⟨locked, front, further, split.hit settled.formed⟩

theorem moveAt_settled {source target mm origin destination cursor left : Nat}
    (settled : Settled state queue chain)
    (doing : state.errand thread = .moving source target mm origin destination cursor left) :
    ∃ queueAfter chainAfter, Settled
      (state.moveAt thread source target mm origin destination cursor left) queueAfter chainAfter := by
  have relies := settled.relies thread
  rw [doing] at relies
  rcases relies with ⟨fromLocked, toLocked, hashes, front, rest, split⟩
  unfold Parks.moveAt
  by_cases ended : cursor = 0 ∨ left = 0
  · rw [if_pos ended]
    refine ⟨queue, chain, @Settled.turn _ _ _ _ thread settled rfl rfl ?_ ?_ ?_⟩
    · intro other apart
      exact update_of_ne apart _ _
    · intro bucket other apart held
      unfold Parks.setErrand Parks.drop
      dsimp only
      rw [update_of_ne, update_of_ne]
      · exact held
      · intro same
        rw [same, fromLocked] at held
        cases held
        exact apart rfl
      · intro same
        rw [same, toLocked] at held
        cases held
        exact apart rfl
    · unfold Parks.setErrand
      dsimp only
      rw [update_self]
      trivial
  · rw [if_neg ended]
    rw [not_or] at ended
    rcases split.here ended.1 with ⟨further, shape⟩
    subst shape
    cases found : state.zone.eligible mm origin 4294967295 cursor with
    | none =>
      rw [requeueVisit_none found]
      exact ⟨queue, chain, settled.goes ⟨fromLocked, toLocked, hashes, front ++ [cursor], further,
        split.pass settled.formed⟩⟩
    | some record =>
      rcases requeueVisit_some settled.formed split.listed hashes found with ⟨zone, visits, moved⟩
      rw [visits]
      refine ⟨_, _, settled.moved moved split.listed fromLocked toLocked ?_ rfl rfl ?_⟩
      · intro other apart
        exact update_of_ne apart _ _
      · unfold Parks.setErrand
        dsimp only
        rw [update_self]
        exact ⟨fromLocked, toLocked, hashes, split.moved settled.formed⟩

/-- `expire_timer` and `interrupt_parked_futex` end a park on one futex. -/
theorem Settled.expired {actor : Option Nat} {later : Parks} {bucket id record seq slot result : Nat}
    (settled : Settled state queue chain) (inQueue : id ∈ queue bucket)
    (inChain : id ∈ chain record) (parked : (state.zone.record record).claim = .parked seq)
    (count : (state.zone.record record).entryCount = 1) (unlocked : state.lock bucket = none)
    (zone : later.zone = state.zone.expireEntry bucket id record slot seq result)
    (wins : later.wins = (state.won record later.zone).wins)
    (errands : ∀ other, some other ≠ actor -> later.errand other = state.errand other)
    (locks : later.lock = state.lock)
    (own : ∀ thread, actor = some thread -> later.errand thread = .idle) :
    Settled later (without [id] queue) (without [id] chain) := by
  have named := ((settled.formed.held record id).mp inChain).2
  subst named
  refine @Settled.won _ _ _ actor _ bucket id
    { state.zone.record (state.zone.entry id).record with
      claim := .queued slot seq
      result := result
      handback := some (state.zone.wokenHandback (state.zone.entry id).record) } settled inQueue ?_
    rfl rfl rfl (fun _ => single_of_count settled.formed count inChain) (.inl unlocked) zone wins
    errands locks ?_
  · rw [parked]
    rfl
  · intro _ thread acts
    rw [own thread acts]
    trivial

theorem settleAt_settled {record seq entry slot result : Nat}
    (settled : Settled state queue chain)
    (doing : state.errand thread = .expiring record seq entry bucket)
    (unlocked : state.lock bucket = none) (meets : state.Meets (.settle thread slot result)) :
    ∃ queueAfter chainAfter, Settled
      (state.settleAt thread record seq entry bucket slot result) queueAfter chainAfter := by
  unfold Parks.settleAt
  by_cases missed : (state.zone.entry entry).bucket ≠ bucket ∨
      (state.zone.record record).claim ≠ .parked seq
  · rw [if_pos missed]
    exact ⟨queue, chain, settled.goes trivial⟩
  rw [if_neg missed]
  rw [not_or, not_not, not_not] at missed
  have relies := settled.relies thread
  rw [doing] at relies
  have inChain : entry ∈ chain record := relies missed.2
  have allocated := ((settled.formed.held record entry).mp inChain).1
  refine ⟨_, _, @Settled.expired _ _ _ (some thread) _ bucket entry record seq slot result settled
    ((settled.formed.listed bucket entry).mpr ⟨allocated, missed.1⟩) inChain missed.2
    (meets record seq entry bucket doing missed.1 missed.2) unlocked rfl rfl ?_ rfl ?_⟩
  · intro other apart
    exact update_of_ne (fun same => apart (congrArg some same)) _ _
  · intro other acts
    cases acts
    exact update_self _ _ _

theorem Settled.starts {thread : Nat} {later : Parks} (settled : Settled state queue chain)
    (zone : later.zone = state.zone) (wins : later.wins = state.wins)
    (errands : ∀ other, other ≠ thread -> later.errand other = state.errand other)
    (locks : ∀ bucket, state.lock bucket ≠ none -> later.lock bucket = state.lock bucket)
    (own : Relies later queue chain thread (later.errand thread)) : Settled later queue chain := by
  refine settled.turn zone wins errands ?_ own
  intro bucket other _ held
  rw [locks bucket]
  · exact held
  · rw [held]
    exact Option.some_ne_none _

theorem Settled.unlinked {record : Nat} (settled : Settled state queue chain)
    (unparked : (state.zone.record record).claim.isParked = false)
    (unsettled : (state.zone.record record).claim.settled = false)
    (enrolled : (state.zone.record record).firstEntry ≠ 0)
    (unlocked : state.lock (enrolledBucket state.zone record) = none) :
    ∃ queueAfter chainAfter, Settled (state.unlinkFirst record) queueAfter chainAfter := by
  rcases first_listed settled.formed enrolled with ⟨inChain, inQueue⟩
  have named := ((settled.formed.held record _).mp inChain).2
  have free := freed settled.formed inQueue rfl rfl
  rw [setRecord_self, named] at free
  refine ⟨_, _, @Settled.free _ (state.unlinkFirst record) _ _ none _ _ _ settled free inQueue
    (.inl unlocked) (fun _ _ => rfl) rfl unparked ?_ ?_ nofun⟩
  · intro isSettled
    rw [unsettled] at isSettled
    cases isSettled
  intro other
  have same : ((state.unlinkFirst record).zone.record other).claim =
      (state.zone.record other).claim := by
    by_cases here : other = record
    · rw [here]
      have claimed := free.claimed
      rw [named] at claimed
      exact claimed
    · rw [<- named] at here
      exact congrArg ZoneRecord.claim (free.records other here)
  rw [same]
  exact settled.tally other

theorem tally_unparked {record : Nat} {claim : Claim} (settled : Settled state queue chain)
    (was : (state.zone.record record).claim.isParked = false) (now : claim.isParked = false)
    (other : Nat) :
    Tally ((state.setClaim record claim).wins other)
      ((state.setClaim record claim).zone.record other).claim := by
  unfold Parks.setClaim
  dsimp only
  rw [setRecord_record]
  split_ifs with same
  · rw [same]
    exact ⟨fun wrong => absurd (now.symm.trans wrong) Bool.false_ne_true,
      fun _ => (settled.tally record).2 was⟩
  · exact settled.tally other

theorem Claim.not_parked_of_settled {claim : Claim} (isSettled : claim.settled = true) :
    claim.isParked = false := by
  cases claim with
  | parked seq => cases isSettled
  | free => rfl
  | queued slot seq => rfl
  | onCpu slot seq => rfl
  | onCpuRequested slot seq => rfl
  | transferring seq cancelled hostRequested => rfl
  | host seq => rfl

theorem next_settled {later : Parks} {deed : Deed} (settled : Settled state queue chain)
    (meets : state.Meets deed) (taken : state.next deed = some later) :
    ∃ queueAfter chainAfter, Settled later queueAfter chainAfter := by
  cases deed with
  | park record waits =>
    rw [Parks.next] at taken
    split_ifs at taken with allowed
    cases taken
    exact park_settled settled allowed.1 allowed.2.1 allowed.2.2 meets
  | own record claim =>
    rw [Parks.next] at taken
    split_ifs at taken with allowed
    cases taken
    have was := Claim.not_parked_of_settled allowed.1
    exact ⟨queue, chain, settled.claim rfl rfl rfl allowed.2 (.inl was) undisturbed_none
      (fun _ => settled.clear record allowed.1) (tally_unparked settled was allowed.2)⟩
  | claimHost record =>
    rw [Parks.next] at taken
    split at taken
    next seq parked =>
      cases taken
      refine ⟨queue, chain, @Settled.claim _ _ _ _ (some record) record
        (.transferring seq false false) settled rfl rfl rfl rfl (.inr rfl) ?_
        nofun (settled.tally_won ?_ ?_ ?_)⟩
      · intro thread bucket mm uaddr bitset cursor left vetted doing
        by_cases named : ∃ id ∈ queue bucket, id ∈ vetted ∧
            (state.zone.entry id).record = record
        · rcases named with ⟨id, inQueue, isVetted, same⟩
          have placed := (settled.formed.listed bucket id).mp inQueue
          exact .inr (alone_plain settled
            (meets _ _ _ _ _ _ _ _ id doing isVetted placed.1 placed.2 same))
        · refine .inl ?_
          intro id inQueue isVetted same
          cases same
          exact named ⟨id, inQueue, isVetted, rfl⟩
      · rw [parked]
        rfl
      · rw [setRecord_record, if_pos rfl]
        rfl
      · intro other apart
        rw [setRecord_record, if_neg apart]
    next => cases taken
  | flag record cancelled hostRequested =>
    rw [Parks.next] at taken
    split at taken
    next seq _ _ transferring =>
      cases taken
      have was : (state.zone.record record).claim.isParked = false := by
        rw [transferring]
        rfl
      exact ⟨queue, chain, settled.claim rfl rfl rfl rfl (.inl was) undisturbed_none
        nofun (tally_unparked settled was rfl)⟩
    next => cases taken
  | unlinkOne record =>
    rw [Parks.next] at taken
    split at taken
    next seq _ _ transferring =>
      split_ifs at taken with allowed
      cases taken
      refine settled.unlinked ?_ ?_ allowed.1 allowed.2
      · rw [transferring]
        rfl
      · rw [transferring]
        rfl
    next => cases taken
  | finish record claim =>
    rw [Parks.next] at taken
    split at taken
    next seq _ _ transferring =>
      split_ifs at taken with allowed
      cases taken
      have was : (state.zone.record record).claim.isParked = false := by
        rw [transferring]
        rfl
      refine ⟨queue, chain, settled.claim rfl rfl rfl allowed.2 (.inl was) undisturbed_none ?_
        (tally_unparked settled was allowed.2)⟩
      intro _
      have first := allowed.1
      rw [first_eq settled.formed] at first
      cases entries : chain record with
      | nil => rfl
      | cons id rest =>
        rw [entries] at first
        have inChain : id ∈ chain record := by
          rw [entries]
          exact List.mem_cons_self
        exact absurd first (settled.formed.used id
          ((settled.formed.held record id).mp inChain).1).1
    next => cases taken
  | interrupt record slot result =>
    rw [Parks.next] at taken
    split at taken
    next seq parked =>
      split_ifs at taken with allowed
      cases taken
      rcases allowed with ⟨count, enrolled, _, _, unlocked⟩
      rcases first_listed settled.formed enrolled with ⟨inChain, inQueue⟩
      exact ⟨_, _, @Settled.expired _ _ _ none _ _ _ record seq slot result settled inQueue inChain
        parked count unlocked rfl rfl (fun _ _ => rfl) rfl nofun⟩
    next => cases taken
  | startWake thread mm uaddr bitset count =>
    rw [Parks.next] at taken
    split_ifs at taken with allowed
    cases taken
    refine ⟨queue, chain, @Settled.starts _ _ _ thread _ settled rfl rfl ?_ ?_ ?_⟩
    · intro other apart
      exact update_of_ne apart _ _
    · intro bucket held
      have apart : bucket ≠ bucketOf mm uaddr := fun same => held (same ▸ allowed.2)
      exact update_of_ne apart _ _
    unfold Parks.setErrand
    dsimp only
    rw [update_self]
    refine ⟨update_self _ _ _, List.nodup_nil, [], queue (bucketOf mm uaddr),
      split_head settled.formed, List.nil_subset _, ?_, ?_⟩
    · intro id record wrong
      cases wrong
    · intro id wrong
      cases wrong
  | plan thread placeable =>
    rw [Parks.next] at taken
    split at taken
    next doing =>
      cases taken
      exact ⟨queue, chain, planAt_settled settled doing meets⟩
    next => cases taken
  | wake thread slot =>
    rw [Parks.next] at taken
    split at taken
    next doing =>
      cases taken
      exact wakeAt_settled settled doing
    next => cases taken
  | startServe thread batch mm uaddr bitset left =>
    rw [Parks.next] at taken
    split_ifs at taken with allowed
    cases taken
    refine ⟨queue, chain, @Settled.starts _ _ _ thread _ settled rfl rfl ?_ ?_ ?_⟩
    · intro other apart
      exact update_of_ne apart _ _
    · intro bucket held
      have apart : bucket ≠ bucketOf mm uaddr := fun same => held (same ▸ allowed.2)
      exact update_of_ne apart _ _
    · unfold Parks.setErrand
      dsimp only
      rw [update_self]
      exact ⟨update_self _ _ _, [], queue (bucketOf mm uaddr), split_head settled.formed⟩
  | serve thread place =>
    rw [Parks.next] at taken
    split at taken
    next doing =>
      cases taken
      exact serveAt_settled settled doing
    next => cases taken
  | startMove thread mm origin destination count =>
    rw [Parks.next] at taken
    split_ifs at taken with allowed
    cases taken
    refine ⟨queue, chain, @Settled.starts _ _ _ thread _ settled rfl rfl ?_ ?_ ?_⟩
    · intro other apart
      exact update_of_ne apart _ _
    · intro bucket held
      have notFrom : bucket ≠ bucketOf mm origin := fun same => held (same ▸ allowed.2.1)
      have notTo : bucket ≠ bucketOf mm destination := fun same => held (same ▸ allowed.2.2)
      unfold Parks.setErrand Parks.hold
      dsimp only
      rw [update_of_ne notTo, update_of_ne notFrom]
    unfold Parks.setErrand Parks.hold
    dsimp only
    rw [update_self]
    refine ⟨?_, update_self _ _ _, rfl, [], queue (bucketOf mm origin),
      split_head settled.formed⟩
    dsimp only
    by_cases same : bucketOf mm origin = bucketOf mm destination
    · rw [same, update_self]
    · rw [update_of_ne same, update_self]
  | move thread =>
    rw [Parks.next] at taken
    split at taken
    next doing =>
      cases taken
      exact moveAt_settled settled doing
    next => cases taken
  | pick thread record seq =>
    rw [Parks.next] at taken
    split_ifs at taken with allowed
    cases taken
    exact ⟨queue, chain, settled.goes trivial⟩
  | look thread =>
    rw [Parks.next] at taken
    split at taken
    next record seq doing =>
      split_ifs at taken with ended
      · cases taken
        exact ⟨queue, chain, settled.goes trivial⟩
      · cases taken
        exact ⟨queue, chain, settled.goes (fun _ => (first_listed settled.formed ended).1)⟩
    next => cases taken
  | giveUp thread =>
    rw [Parks.next] at taken
    split at taken
    next =>
      cases taken
      exact ⟨queue, chain, settled.goes trivial⟩
    next =>
      cases taken
      exact ⟨queue, chain, settled.goes trivial⟩
    next => cases taken
  | settle thread slot result =>
    rw [Parks.next] at taken
    split at taken
    next doing =>
      split_ifs at taken with unlocked
      cases taken
      exact settleAt_settled settled doing unlocked meets
    next => cases taken

end Steps

/-! ## Every run -/

/-- A settled record has no entry, a park that is over was ended once, and an EL1 wake
that is about to claim a waiter finds it on one futex alone. -/
structure Ended (state : Parks) : Prop where
  whole : Whole state.zone
  clear : ∀ record, (state.zone.record record).claim.settled = true ->
    (state.zone.record record).entryCount = 0 ∧
      ∀ id, state.zone.entryMap id = true -> (state.zone.entry id).record ≠ record
  once : ∀ record, Tally (state.wins record) (state.zone.record record).claim
  single : ∀ thread bucket mm uaddr bitset cursor left vetted record,
    state.errand thread = .waking bucket mm uaddr bitset cursor left vetted ->
    cursor ≠ 0 -> left ≠ 0 -> state.zone.eligible mm uaddr bitset cursor = some record ->
    (state.zone.record record).entryCount = 1

theorem Settled.ended {state : Parks} {queue chain : Nat -> List Nat}
    (settled : Settled state queue chain) : Ended state where
  whole := ⟨queue, chain, settled.formed⟩
  clear := by
    intro record isSettled
    have none := settled.clear record isSettled
    constructor
    · rw [settled.formed.chained.count, none]
      rfl
    · intro id allocated named
      have inChain := (settled.formed.held record id).mpr ⟨allocated, named⟩
      rw [none] at inChain
      cases inChain
  once := settled.tally
  single := by
    intro thread bucket mm uaddr bitset cursor left vetted record doing nonzero more found
    have relies := settled.relies thread
    rw [doing] at relies
    rcases relies with ⟨_, front, rest, split, either⟩
    rcases split.here nonzero with ⟨further, shape⟩
    subst shape
    have single : chain record = [cursor] := by
      rcases either with plain | enough
      · exact plain cursor record List.mem_cons_self found
      · exact ((enough.step more).2 record found).1
    rw [settled.formed.chained.count, single]
    rfl

theorem fresh_settled : Settled Parks.fresh (fun _ => []) (fun _ => []) where
  formed := empty_formed
  clear := fun _ _ => rfl
  tally := fun _ => ⟨nofun, fun _ => .inl rfl⟩
  relies := fun _ => trivial

/-- In every run whose steps meet the condition, a park ends once at most and a
record that is settled is on no futex. -/
theorem parks_end_once {history : List Deed} {state : Parks}
    (run : Run Parks.Starts Parks.Careful history state) : Ended state := by
  have settled : ∃ queue chain, Settled state queue chain := by
    refine run.state_invariant (fun state => ∃ queue chain, Settled state queue chain) ?_ ?_
    · intro first starts
      rw [show first = Parks.fresh from starts]
      exact ⟨_, _, fresh_settled⟩
    · rintro before deed after ⟨queue, chain, settled⟩ ⟨taken, meets⟩
      exact next_settled settled meets taken
  rcases settled with ⟨queue, chain, settled⟩
  exact settled.ended

/-- Record 1 parks and an EL1 wake ends its park. -/
def oneWoken : List Deed :=
  [.park 1 [⟨7, 64, 1⟩], .startWake 0 7 64 1 1, .plan 0 true, .plan 0 true, .wake 0 3]

theorem oneWoken_run : Run Parks.Starts Parks.Careful oneWoken.reverse
    (after Parks.next Parks.fresh oneWoken) := by
  have parked := @after_next _ _ Parks.next Parks.fresh [] (.park 1 [⟨7, 64, 1⟩]) (by decide +kernel)
  have started := @after_next _ _ Parks.next Parks.fresh [.park 1 [⟨7, 64, 1⟩]]
    (.startWake 0 7 64 1 1) (by decide +kernel)
  have vetted := @after_next _ _ Parks.next Parks.fresh
    [.park 1 [⟨7, 64, 1⟩], .startWake 0 7 64 1 1] (.plan 0 true) (by decide +kernel)
  have planned := @after_next _ _ Parks.next Parks.fresh
    [.park 1 [⟨7, 64, 1⟩], .startWake 0 7 64 1 1, .plan 0 true] (.plan 0 true) (by decide +kernel)
  have claimed := @after_next _ _ Parks.next Parks.fresh
    [.park 1 [⟨7, 64, 1⟩], .startWake 0 7 64 1 1, .plan 0 true, .plan 0 true] (.wake 0 3)
    (by decide +kernel)
  have quiet : Parks.fresh.Meets (.park 1 [⟨7, 64, 1⟩]) := nofun
  have first : (after Parks.next Parks.fresh
      [.park 1 [⟨7, 64, 1⟩], .startWake 0 7 64 1 1]).Meets (.plan 0 true) := by
    intro bucket mm uaddr bitset count cursor vetted doing _
    have nothing : (after Parks.next Parks.fresh
        [.park 1 [⟨7, 64, 1⟩], .startWake 0 7 64 1 1]).errand 0 =
        .planning (bucketOf 7 64) 7 64 1 1 1 [] := by
      decide +kernel
    rw [nothing] at doing
    cases doing
    exact .inl nofun
  have second : (after Parks.next Parks.fresh
      [.park 1 [⟨7, 64, 1⟩], .startWake 0 7 64 1 1, .plan 0 true]).Meets (.plan 0 true) := by
    intro bucket mm uaddr bitset count cursor vetted doing _
    have one : (after Parks.next Parks.fresh
        [.park 1 [⟨7, 64, 1⟩], .startWake 0 7 64 1 1, .plan 0 true]).errand 0 =
        .planning (bucketOf 7 64) 7 64 1 1 0 [1] := by
      decide +kernel
    have waits : (after Parks.next Parks.fresh [.park 1 [⟨7, 64, 1⟩], .startWake 0 7 64 1 1,
        .plan 0 true]).zone.eligible 7 64 1 1 = some 1 := by
      decide +kernel
    rw [one] at doing
    cases doing
    refine .inl ?_
    intro id listed wrong
    rw [List.mem_singleton.mp listed, waits] at wrong
    cases wrong
  exact .next (.next (.next (.next (.next (.initial rfl) ⟨parked, quiet⟩) ⟨started, trivial⟩)
    ⟨vetted, first⟩) ⟨planned, second⟩) ⟨claimed, trivial⟩

theorem parks_end_once_woken : Run Parks.Starts Parks.Careful oneWoken.reverse
      (after Parks.next Parks.fresh oneWoken) ∧
    (after Parks.next Parks.fresh oneWoken).wins 1 = some 1 ∧
    Ended (after Parks.next Parks.fresh oneWoken) :=
  ⟨oneWoken_run, by decide +kernel, parks_end_once oneWoken_run⟩

/-- The host takes the one waiter that a wake has vetted, and the second pass goes on to
a record that is parked on two futexes. -/
def vettedTaken : List Deed :=
  [.park 1 [⟨7, 64, 1⟩], .park 2 [⟨7, 64, 1⟩, ⟨7, 68, 1⟩], .startWake 0 7 64 1 1, .plan 0 true,
    .plan 0 true, .claimHost 1, .wake 0 3, .wake 0 3]

theorem vettedTaken_leaves : (follow Parks.next Parks.fresh vettedTaken).map (fun state =>
      ((state.zone.record 2).claim, (state.zone.record 2).entryCount)) =
    some (.queued 3 1, 1) := by
  decide +kernel

/-- A record is queued by EL1 while an entry still names it. -/
theorem queued_record_keeps_entry :
    ¬ ∀ history state, Run Parks.Starts Parks.Step history state -> Ended state := by
  intro always
  cases reached : follow Parks.next Parks.fresh vettedTaken with
  | none =>
    have leaves := vettedTaken_leaves
    rw [reached] at leaves
    cases leaves
  | some state =>
    have leaves := vettedTaken_leaves
    rw [reached, Option.map_some, Option.some.injEq, Prod.mk.injEq] at leaves
    have run : Run Parks.Starts Parks.Step (vettedTaken.reverse ++ []) state :=
      Run.follow (.initial rfl) reached
    have clear := ((always _ _ run).clear 2 (by rw [leaves.1]; rfl)).1
    rw [leaves.2] at clear
    cases clear

end Zone
end Carrick
