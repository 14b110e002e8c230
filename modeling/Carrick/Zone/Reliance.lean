import Carrick.Zone.Parks

namespace Carrick
namespace Zone

open Foundation

/-!
# What a waker relies on

A thread that walks a queue relies on its bucket's lock: no other step changes that
queue or the entries on it, no entry on it becomes a waiter, and a waiter with that
one entry stays one, unless the host takes its claim.
-/

/-! ## Freeing one entry -/

/-- One entry was freed, and its record has the claim that the step gave it. -/
structure Freed (zone later : Tables) (queue chain : Nat -> List Nat) (id : Nat) (claim : Claim) :
    Prop where
  formed : Formed later (without [id] queue) (without [id] chain)
  claimed : (later.record (zone.entry id).record).claim = claim
  records : ∀ record, record ≠ (zone.entry id).record ->
    later.record record = zone.record record
  entries : ∀ node, node ≠ id -> (later.entry node).bare = (zone.entry node).bare

variable {queue chain : Nat -> List Nat}

theorem freed {zone : Tables} {bucket id : Nat} {value : ZoneRecord}
    (formed : Formed zone queue chain) (inQueue : id ∈ queue bucket)
    (first : value.firstEntry = (zone.record (zone.entry id).record).firstEntry)
    (count : value.entryCount = (zone.record (zone.entry id).record).entryCount) :
    Freed zone (((zone.setRecord (zone.entry id).record value).unlink bucket id).dropEntry
      (zone.entry id).record id) queue chain id value.claim := by
  constructor
  case formed => exact formed.without_entry inQueue first count
  case claimed =>
    rw [dropEntry_record_reads _ ZoneRecord.claim (fun _ _ _ => rfl), unlink_record,
      setRecord_record, if_pos rfl]
  case records =>
    intro record apart
    rw [dropEntry_record_other _ apart, unlink_record, setRecord_record, if_neg apart]
  case entries =>
    intro node apart
    rw [dropEntry_bare, if_neg apart, unlink_bare]
    rfl

theorem setRecord_self (zone : Tables) (record : Nat) :
    zone.setRecord record (zone.record record) = zone := by
  unfold Tables.setRecord
  rw [Function.update_eq_self]

theorem without_absent {bucket id : Nat} (absent : id ∉ queue bucket) :
    without [id] queue bucket = queue bucket := by
  unfold without
  rw [List.filter_eq_self]
  intro node listed
  rw [decide_eq_true_eq, List.mem_singleton]
  exact fun same => absent (same ▸ listed)

/-! ## Enrolling a record -/

/-- A record was enrolled on the buckets of some waits; nobody else's entries changed. -/
structure Enrolled (zone later : Tables) (queue chain queueAfter chainAfter : Nat -> List Nat)
    (record : Nat) (waits : List Wait) : Prop where
  formed : Formed later queueAfter chainAfter
  queues : ∀ bucket, (∀ wait ∈ waits, bucketOf wait.mm wait.uaddr ≠ bucket) ->
    queueAfter bucket = queue bucket
  chains : ∀ other, other ≠ record -> chainAfter other = chain other
  fresh : ∀ id ∈ chainAfter record, id ∈ chain record ∨ zone.entryMap id = false
  entries : ∀ id, zone.entryMap id = true ->
    later.entryMap id = true ∧ (later.entry id).bare = (zone.entry id).bare
  records : ∀ other, other ≠ record -> later.record other = zone.record other
  claim : (later.record record).claim = (zone.record record).claim

section Enrolment

variable {zone : Tables} {record seq : Nat}

theorem enqueue_enrolled {wait : Wait} {index id : Nat} (formed : Formed zone queue chain)
    (owned : record ≠ 0) (found : zone.allocEntry = some id) :
    Enrolled zone
      ((zone.chainEntry id record seq wait.mm wait.uaddr wait.bitset index).linkTail
        (bucketOf wait.mm wait.uaddr) id) queue chain
      (Function.update queue (bucketOf wait.mm wait.uaddr)
        (queue (bucketOf wait.mm wait.uaddr) ++ [id]))
      (Function.update chain record (id :: chain record)) record [wait] := by
  have free := (Formed.allocEntry_some found).2.2
  constructor
  case formed => exact formed.enqueue owned found
  case queues =>
    intro bucket apart
    rw [Function.update_of_ne]
    exact (apart wait (by simp)).symm
  case chains =>
    intro other apart
    rw [Function.update_of_ne apart]
  case fresh =>
    intro node listed
    rw [Function.update_self] at listed
    rcases List.mem_cons.mp listed with same | older
    · rw [same]
      exact .inr free
    · exact .inl older
  case entries =>
    intro node allocated
    have apart : node ≠ id := by
      intro same
      rw [same, free] at allocated
      cases allocated
    rw [linkTail_entryMap, linkTail_bare, if_neg apart]
    unfold Tables.chainEntry
    refine ⟨?_, congrArg ZoneEntry.bare (setEntry_entry _ _ |>.trans (if_neg apart))⟩
    show (zone.setMap id true).entryMap node = true
    rw [setMap_entryMap, if_neg apart]
    exact allocated
  case records =>
    intro other apart
    rw [linkTail_record]
    unfold Tables.chainEntry
    rw [setRecord_record, if_neg apart]
    rfl
  case claim =>
    rw [linkTail_record]
    unfold Tables.chainEntry
    rw [setRecord_record, if_pos rfl]

theorem Enrolled.trans {middle later : Tables}
    {queueBetween chainBetween queueAfter chainAfter : Nat -> List Nat} {first rest : List Wait}
    (early : Enrolled zone middle queue chain queueBetween chainBetween record first)
    (late : Enrolled middle later queueBetween chainBetween queueAfter chainAfter record rest) :
    Enrolled zone later queue chain queueAfter chainAfter record (first ++ rest) := by
  constructor
  case formed => exact late.formed
  case queues =>
    intro bucket apart
    rw [late.queues bucket (fun wait listed => apart wait (List.mem_append_right _ listed)),
      early.queues bucket (fun wait listed => apart wait (List.mem_append_left _ listed))]
  case chains =>
    intro other apart
    rw [late.chains other apart, early.chains other apart]
  case fresh =>
    intro node listed
    rcases late.fresh node listed with between | free
    · exact early.fresh node between
    right
    cases used : zone.entryMap node with
    | false => rfl
    | true =>
      rw [(early.entries node used).1] at free
      cases free
  case entries =>
    intro node allocated
    have between := early.entries node allocated
    have after := late.entries node between.1
    exact ⟨after.1, after.2.trans between.2⟩
  case records =>
    intro other apart
    rw [late.records other apart, early.records other apart]
  case claim => rw [late.claim, early.claim]

theorem Enrolled.refl (formed : Formed zone queue chain) (waits : List Wait) :
    Enrolled zone zone queue chain queue chain record waits where
  formed := formed
  queues := fun _ _ => rfl
  chains := fun _ _ => rfl
  fresh := fun _ listed => .inl listed
  entries := fun _ allocated => ⟨allocated, rfl⟩
  records := fun _ _ => rfl
  claim := rfl

theorem enrol_enrolled (owned : record ≠ 0) (waits : List Wait) {index : Nat}
    (formed : Formed zone queue chain) :
    ∃ queueAfter chainAfter, Enrolled zone (zone.enrol record seq index waits).1 queue chain
      queueAfter chainAfter record waits := by
  induction waits generalizing zone queue chain index with
  | nil =>
    rw [Tables.enrol]
    exact ⟨queue, chain, Enrolled.refl formed []⟩
  | cons wait rest ih =>
    rw [Tables.enrol]
    unfold Tables.enqueue
    cases found : zone.allocEntry with
    | none => exact ⟨queue, chain, Enrolled.refl formed _⟩
    | some id =>
      have first := @enqueue_enrolled _ _ _ _ seq wait index _ formed owned found
      rcases @ih _ _ _ (index + 1) first.formed with
        ⟨queueAfter, chainAfter, later⟩
      exact ⟨queueAfter, chainAfter, first.trans later⟩

end Enrolment

/-- Every entry of a record was freed. -/
structure Undone (zone later : Tables) (queue chain queueAfter chainAfter : Nat -> List Nat)
    (record : Nat) : Prop where
  formed : Formed later queueAfter chainAfter
  empty : chainAfter record = []
  queues : ∀ bucket, (∀ id ∈ chain record, id ∉ queue bucket) ->
    queueAfter bucket = queue bucket
  chains : ∀ other, other ≠ record -> chainAfter other = chain other
  entries : ∀ id, id ∉ chain record -> (later.entry id).bare = (zone.entry id).bare
  records : ∀ other, other ≠ record -> later.record other = zone.record other
  claim : (later.record record).claim = (zone.record record).claim

theorem unlinkAll_undone {record fuel : Nat} {zone : Tables}
    (formed : Formed zone queue chain) (enough : (chain record).length < fuel) :
    ∃ queueAfter chainAfter,
      Undone zone (zone.unlinkAll record fuel) queue chain queueAfter chainAfter record := by
  induction fuel generalizing zone queue chain with
  | zero => exact absurd enough (Nat.not_lt_zero _)
  | succ fuel ih =>
    unfold Tables.unlinkAll
    dsimp only
    by_cases ended : (zone.record record).firstEntry = 0
    · rw [if_pos ended]
      refine ⟨queue, chain, formed, ?_, fun _ _ => rfl, fun _ _ => rfl, fun _ _ => rfl,
        fun _ _ => rfl, rfl⟩
      rw [first_eq formed] at ended
      cases entries : chain record with
      | nil => rfl
      | cons id rest =>
        rw [entries] at ended
        have inChain : id ∈ chain record := by
          rw [entries]
          exact List.mem_cons_self
        exact absurd ended (formed.used id ((formed.held record id).mp inChain).1).1
    rw [if_neg ended]
    rcases first_listed formed ended with ⟨inChain, inQueue⟩
    generalize (zone.record record).firstEntry = id at *
    have named : (zone.entry id).record = record := ((formed.held record id).mp inChain).2
    have bucketNamed : (zone.entry id).bucket = enrolledBucket zone record :=
      ((formed.listed _ id).mp inQueue).2
    have free := freed formed inQueue rfl rfl
    rw [setRecord_self, named, <- bucketNamed] at free
    have shorter : (without [id] chain record).length < fuel := by
      have lengths : (without [id] chain record).length < (chain record).length := by
        unfold without
        rw [List.length_filter_lt_length_iff_exists]
        exact ⟨id, inChain, by simp⟩
      omega
    rcases ih free.formed shorter with ⟨queueAfter, chainAfter, undone⟩
    refine ⟨queueAfter, chainAfter, undone.formed, undone.empty, ?_, ?_, ?_, ?_, ?_⟩
    · intro bucket apart
      have absent := apart id inChain
      rw [undone.queues bucket, without_absent absent]
      intro node listed inBucket
      exact apart node (mem_without.mp listed).1 (mem_without.mp inBucket).1
    · intro other apart
      rw [undone.chains other apart, without_absent]
      exact fun inOther => apart (formed.chained.apart other record id inOther inChain)
    · intro node absent
      have differs : node ≠ id := fun same => absent (same ▸ inChain)
      rw [undone.entries node (fun listed => absent (mem_without.mp listed).1)]
      exact free.entries node differs
    · intro other apart
      rw [undone.records other apart]
      exact free.records other (named ▸ apart)
    · rw [undone.claim]
      have claimed := free.claimed
      rw [named] at claimed
      exact claimed

/-! ## The lock of a bucket -/

/-- What a step leaves to whoever holds the lock of the bucket that some entries are on.
`taken` is a record whose claim the host took. -/
structure Keeps (zone later : Tables) (chain chainAfter : Nat -> List Nat) (taken : Option Nat)
    (entries : List Nat) : Prop where
  bares : ∀ id ∈ entries, (later.entry id).bare = (zone.entry id).bare
  singles : ∀ id ∈ entries, chain (zone.entry id).record = [id] ->
    chainAfter (zone.entry id).record = [id]
  wakes : ∀ id seq, id ∈ entries ->
    (later.record (zone.entry id).record).claim = .parked seq ->
    (zone.record (zone.entry id).record).claim = .parked seq
  lasts : ∀ id seq, id ∈ entries -> chain (zone.entry id).record = [id] ->
    some (zone.entry id).record ≠ taken ->
    (zone.record (zone.entry id).record).claim = .parked seq ->
    (later.record (zone.entry id).record).claim = .parked seq

namespace Keeps

variable {zone later : Tables} {chainAfter : Nat -> List Nat} {taken : Option Nat}
  {entries : List Nat} {id mm uaddr bitset record : Nat}

theorem refl : Keeps zone zone chain chain taken entries where
  bares := fun _ _ => rfl
  singles := fun _ _ single => single
  wakes := fun _ _ _ parked => parked
  lasts := fun _ _ _ _ _ parked => parked

section Keeps

variable (keeps : Keeps zone later chain chainAfter taken entries) (listed : id ∈ entries)

include keeps listed

theorem record_eq :
    (later.entry id).record = (zone.entry id).record :=
  ZoneEntry.bare_reads ZoneEntry.record (fun _ => rfl) (keeps.bares id listed)

/-- Nothing becomes a waiter, since parking needs the lock of the bucket. -/
theorem eligible_before (found : later.eligible mm uaddr bitset id = some record) :
    zone.eligible mm uaddr bitset id = some record := by
  have kept := keeps.bares id listed
  rw [eligible_some, keeps.record_eq listed, ZoneEntry.bare_reads ZoneEntry.mm (fun _ => rfl) kept,
    ZoneEntry.bare_reads ZoneEntry.uaddr (fun _ => rfl) kept,
    ZoneEntry.bare_reads ZoneEntry.bitset (fun _ => rfl) kept,
    ZoneEntry.bare_reads ZoneEntry.seq (fun _ => rfl) kept] at found
  rcases found with ⟨sameMm, sameUaddr, meets, used, parked, named⟩
  exact eligible_some.mpr
    ⟨sameMm, sameUaddr, meets, used, keeps.wakes id _ listed parked, named⟩

theorem eligible_after (single : chain (zone.entry id).record = [id])
    (untaken : some (zone.entry id).record ≠ taken)
    (found : zone.eligible mm uaddr bitset id = some record) :
    later.eligible mm uaddr bitset id = some record := by
  have kept := keeps.bares id listed
  rcases eligible_some.mp found with ⟨sameMm, sameUaddr, meets, used, parked, named⟩
  rw [eligible_some, keeps.record_eq listed, ZoneEntry.bare_reads ZoneEntry.mm (fun _ => rfl) kept,
    ZoneEntry.bare_reads ZoneEntry.uaddr (fun _ => rfl) kept,
    ZoneEntry.bare_reads ZoneEntry.bitset (fun _ => rfl) kept,
    ZoneEntry.bare_reads ZoneEntry.seq (fun _ => rfl) kept]
  exact ⟨sameMm, sameUaddr, meets, used, keeps.lasts id _ listed single untaken parked, named⟩

end Keeps

end Keeps

/-- The other entries keep what they have when one is freed and its record's park ended. -/
theorem Freed.keeps {zone later : Tables} {bucket id : Nat}
    {claim : Claim} {entries : List Nat} (freed : Freed zone later queue chain id claim)
    (formed : Formed zone queue chain) (inQueue : id ∈ queue bucket)
    (unparked : claim.isParked = false) (absent : id ∉ entries) :
    Keeps zone later chain (without [id] chain) none entries := by
  have allocated := ((formed.listed bucket id).mp inQueue).1
  have inChain : id ∈ chain (zone.entry id).record := (formed.held _ id).mpr ⟨allocated, rfl⟩
  have differs : ∀ node ∈ entries, node ≠ id :=
    fun node listed same => absent (same ▸ listed)
  have elsewhere : ∀ node ∈ entries, chain (zone.entry node).record = [node] ->
      (zone.entry node).record ≠ (zone.entry id).record := by
    intro node listed single same
    rw [<- same, single, List.mem_singleton] at inChain
    exact differs node listed inChain.symm
  constructor
  case bares => exact fun node listed => freed.entries node (differs node listed)
  case singles =>
    intro node listed single
    rw [without_absent]
    · exact single
    · intro inOther
      exact elsewhere node listed single (formed.chained.apart _ _ id inOther inChain)
  case wakes =>
    intro node seq _ parked
    by_cases same : (zone.entry node).record = (zone.entry id).record
    · rw [same, freed.claimed] at parked
      rw [parked] at unparked
      cases unparked
    · rw [freed.records _ same] at parked
      exact parked
  case lasts =>
    intro node seq listed single _ parked
    rw [freed.records _ (elsewhere node listed single)]
    exact parked

/-! ## Two passes of a wake -/

/-- Every waiter of the futex among the entries waits on it alone. -/
def Plain (zone : Tables) (chain : Nat -> List Nat) (mm uaddr bitset : Nat) (entries : List Nat) :
    Prop :=
  ∀ id record, id ∈ entries -> zone.eligible mm uaddr bitset id = some record ->
    chain record = [id]

/-- The waiters among the entries are vetted, and a vetted one waits on nothing else. -/
structure Scanned (zone : Tables) (chain : Nat -> List Nat) (mm uaddr bitset : Nat)
    (entries vetted : List Nat) : Prop where
  waiters : ∀ id record, id ∈ entries -> zone.eligible mm uaddr bitset id = some record ->
    id ∈ vetted
  singles : ∀ id ∈ entries, id ∈ vetted -> chain (zone.entry id).record = [id]

/-- The second pass has enough vetted waiters before it to fill its count. -/
def Enough (zone : Tables) (chain : Nat -> List Nat) (mm uaddr bitset left : Nat)
    (rest vetted : List Nat) : Prop :=
  ∃ near far, rest = near ++ far ∧ Scanned zone chain mm uaddr bitset near vetted ∧
    (∀ id ∈ near, id ∈ vetted ->
      zone.eligible mm uaddr bitset id = some (zone.entry id).record) ∧
    left <= (near.filter (fun id => id ∈ vetted)).length

section Passes

variable {zone later : Tables} {chainAfter : Nat -> List Nat} {taken : Option Nat}
  {mm uaddr bitset left cursor : Nat} {rest vetted entries : List Nat}

theorem Plain.kept (keeps : Keeps zone later chain chainAfter taken entries)
    (plain : Plain zone chain mm uaddr bitset entries) :
    Plain later chainAfter mm uaddr bitset entries := by
  intro id record listed found
  have before := keeps.eligible_before listed found
  have single := plain id record listed before
  have named := (eligible_some.mp before).2.2.2.2.2
  rw [<- named] at single ⊢
  exact keeps.singles id listed single

theorem Plain.mono (plain : Plain zone chain mm uaddr bitset entries)
    (inside : ∀ id ∈ rest, id ∈ entries) : Plain zone chain mm uaddr bitset rest :=
  fun id record listed found => plain id record (inside id listed) found

theorem Scanned.kept (keeps : Keeps zone later chain chainAfter taken entries)
    (inside : ∀ id ∈ rest, id ∈ entries)
    (scanned : Scanned zone chain mm uaddr bitset rest vetted) :
    Scanned later chainAfter mm uaddr bitset rest vetted where
  waiters := fun id record listed found =>
    scanned.waiters id record listed (keeps.eligible_before (inside id listed) found)
  singles := by
    intro id listed isVetted
    rw [keeps.record_eq (inside id listed)]
    exact keeps.singles id (inside id listed) (scanned.singles id listed isVetted)

theorem Enough.kept (keeps : Keeps zone later chain chainAfter taken entries)
    (inside : ∀ id ∈ rest, id ∈ entries)
    (untaken : ∀ id ∈ rest, id ∈ vetted -> some (zone.entry id).record ≠ taken)
    (enough : Enough zone chain mm uaddr bitset left rest vetted) :
    Enough later chainAfter mm uaddr bitset left rest vetted := by
  rcases enough with ⟨near, far, parts, scanned, waiting, bound⟩
  have nearby : ∀ id ∈ near, id ∈ rest := by
    intro id listed
    rw [parts]
    exact List.mem_append_left _ listed
  refine ⟨near, far, parts, scanned.kept keeps (fun id listed => inside id (nearby id listed)), ?_,
    bound⟩
  intro id listed isVetted
  have known := inside id (nearby id listed)
  rw [keeps.record_eq known]
  exact keeps.eligible_after known (scanned.singles id listed isVetted)
    (untaken id (nearby id listed) isVetted) (waiting id listed isVetted)

/-- A pass that is not done has a vetted waiter at its cursor or further on. -/
theorem Enough.step (enough : Enough zone chain mm uaddr bitset left (cursor :: rest) vetted)
    (more : left ≠ 0) :
    (zone.eligible mm uaddr bitset cursor = none ->
        Enough zone chain mm uaddr bitset left rest vetted) ∧
      ∀ record, zone.eligible mm uaddr bitset cursor = some record ->
        chain record = [cursor] ∧ Enough zone chain mm uaddr bitset (left - 1) rest vetted := by
  rcases enough with ⟨near, far, parts, scanned, waiting, bound⟩
  cases near with
  | nil =>
    rw [List.filter_nil, List.length_nil] at bound
    exact absurd (Nat.le_zero.mp bound) more
  | cons id near =>
    rw [List.cons_append, List.cons.injEq] at parts
    rcases parts with ⟨same, parts⟩
    subst same
    have fewer : Scanned zone chain mm uaddr bitset near vetted :=
      ⟨fun id record listed => scanned.waiters id record (List.mem_cons_of_mem _ listed),
        fun id listed => scanned.singles id (List.mem_cons_of_mem _ listed)⟩
    have further : ∀ id ∈ near, id ∈ vetted ->
        zone.eligible mm uaddr bitset id = some (zone.entry id).record :=
      fun id listed => waiting id (List.mem_cons_of_mem _ listed)
    constructor
    · intro passed
      refine ⟨near, far, parts, fewer, further, ?_⟩
      have notVetted : cursor ∉ vetted := by
        intro isVetted
        rw [waiting cursor List.mem_cons_self isVetted] at passed
        cases passed
      rw [List.filter_cons_of_neg (by simpa using notVetted)] at bound
      exact bound
    · intro record found
      have isVetted := scanned.waiters cursor record List.mem_cons_self found
      have single := scanned.singles cursor List.mem_cons_self isVetted
      rw [(eligible_some.mp found).2.2.2.2.2] at single
      refine ⟨single, near, far, parts, fewer, further, ?_⟩
      rw [List.filter_cons_of_pos (by simpa using isVetted), List.length_cons] at bound
      omega

end Passes

/-! ## Threads -/

/-- The queue is split where a thread's cursor is. -/
def Split (queue : Nat -> List Nat) (bucket cursor : Nat) (front rest : List Nat) : Prop :=
  queue bucket = front ++ rest ∧ cursor = rest.head?.getD 0

/-- What holds of a thread in the middle of an errand. -/
def Relies (state : Parks) (queue chain : Nat -> List Nat) (thread : Nat) : Errand -> Prop
  | .idle => True
  | .planning bucket mm uaddr bitset _ cursor vetted =>
    state.lock bucket = some thread ∧ vetted.Nodup ∧
      ∃ front rest, Split queue bucket cursor front rest ∧ vetted ⊆ front ∧
        Scanned state.zone chain mm uaddr bitset front vetted
  | .waking bucket mm uaddr bitset cursor left vetted =>
    state.lock bucket = some thread ∧
      ∃ front rest, Split queue bucket cursor front rest ∧
        (Plain state.zone chain mm uaddr bitset rest ∨
          Enough state.zone chain mm uaddr bitset left rest vetted)
  | .serving _ bucket _ _ _ cursor _ =>
    state.lock bucket = some thread ∧ ∃ front rest, Split queue bucket cursor front rest
  | .moving source target mm _ destination cursor _ =>
    state.lock source = some thread ∧ state.lock target = some thread ∧
      target = bucketOf mm destination ∧ ∃ front rest, Split queue source cursor front rest
  | .picked _ _ => True
  | .expiring record seq entry _ =>
    (state.zone.record record).claim = .parked seq -> entry ∈ chain record

/-- What a step leaves to the threads that do not take it: their errands, and
the queues of the buckets they have locked. -/
structure Spares (state later : Parks) (queue chain queueAfter chainAfter : Nat -> List Nat)
    (actor taken : Option Nat) : Prop where
  errands : ∀ other, some other ≠ actor -> later.errand other = state.errand other
  locks : ∀ bucket other, some other ≠ actor -> state.lock bucket = some other ->
    later.lock bucket = some other
  queues : ∀ bucket other, some other ≠ actor -> state.lock bucket = some other ->
    queueAfter bucket = queue bucket
  keeps : ∀ bucket other, some other ≠ actor -> state.lock bucket = some other ->
    Keeps state.zone later.zone chain chainAfter taken (queue bucket)
  parked : ∀ record seq, (later.zone.record record).claim = .parked seq ->
    ((state.zone.record record).claim = .parked seq ∧ chainAfter record = chain record) ∨
      ∀ thread entry bucket, state.errand thread ≠ .expiring record seq entry bucket

/-- A wake under way loses no vetted waiter to the host, or has only plain waiters. -/
def Undisturbed (state : Parks) (queue chain : Nat -> List Nat) (taken : Option Nat) : Prop :=
  ∀ thread bucket mm uaddr bitset cursor left vetted,
    state.errand thread = .waking bucket mm uaddr bitset cursor left vetted ->
    (∀ id ∈ queue bucket, id ∈ vetted -> some (state.zone.entry id).record ≠ taken) ∨
      Plain state.zone chain mm uaddr bitset (queue bucket)

theorem Relies.spared {state later : Parks} {queueAfter chainAfter : Nat -> List Nat}
    {actor taken : Option Nat} {other : Nat}
    (spares : Spares state later queue chain queueAfter chainAfter actor taken)
    (undisturbed : Undisturbed state queue chain taken) (apart : some other ≠ actor)
    (relies : Relies state queue chain other (state.errand other)) :
    Relies later queueAfter chainAfter other (later.errand other) := by
  rw [spares.errands other apart]
  cases doing : state.errand other with
  | idle => trivial
  | planning bucket mm uaddr bitset count cursor vetted =>
    rw [doing] at relies
    rcases relies with ⟨locked, nodup, front, rest, ⟨parts, here⟩, inside, scanned⟩
    have keeps := spares.keeps bucket other apart locked
    refine ⟨spares.locks bucket other apart locked, nodup, front, rest,
      ⟨(spares.queues bucket other apart locked).trans parts, here⟩, inside,
      scanned.kept keeps ?_⟩
    intro id listed
    rw [parts]
    exact List.mem_append_left _ listed
  | waking bucket mm uaddr bitset cursor left vetted =>
    rw [doing] at relies
    rcases relies with ⟨locked, front, rest, ⟨parts, here⟩, either⟩
    have keeps := spares.keeps bucket other apart locked
    have inside : ∀ id ∈ rest, id ∈ queue bucket := by
      intro id listed
      rw [parts]
      exact List.mem_append_right _ listed
    have narrow : Keeps state.zone later.zone chain chainAfter taken rest :=
      ⟨fun id listed => keeps.bares id (inside id listed),
        fun id listed => keeps.singles id (inside id listed),
        fun id seq listed => keeps.wakes id seq (inside id listed),
        fun id seq listed => keeps.lasts id seq (inside id listed)⟩
    refine ⟨spares.locks bucket other apart locked, front, rest,
      ⟨(spares.queues bucket other apart locked).trans parts, here⟩, ?_⟩
    rcases either with plain | enough
    · exact .inl (plain.kept narrow)
    · rcases undisturbed other _ _ _ _ _ _ _ doing with untaken | plain
      · exact .inr (enough.kept keeps inside (fun id listed => untaken id (inside id listed)))
      · exact .inl ((plain.mono inside).kept narrow)
  | serving batch bucket mm uaddr bitset cursor left =>
    rw [doing] at relies
    rcases relies with ⟨locked, front, rest, parts, here⟩
    exact ⟨spares.locks bucket other apart locked, front, rest,
      (spares.queues bucket other apart locked).trans parts, here⟩
  | moving source target mm origin destination cursor left =>
    rw [doing] at relies
    rcases relies with ⟨lockedSource, lockedTarget, hashes, front, rest, parts, here⟩
    exact ⟨spares.locks source other apart lockedSource, spares.locks target other apart lockedTarget,
      hashes, front, rest, (spares.queues source other apart lockedSource).trans parts, here⟩
  | picked record seq => trivial
  | expiring record seq entry bucket =>
    rw [doing] at relies
    intro parked
    rcases spares.parked record seq parked with ⟨before, same⟩ | fresh
    · rw [same]
      exact relies before
    · exact absurd doing (fresh other entry bucket)

end Zone
end Carrick
