import Carrick.Zone.Formed

namespace Carrick
namespace Zone

open Foundation

/-!
# What a wake claims

A wake walks along its bucket's queue and claims the waiters of its futex as it
meets them.  A claimed waiter's entry leaves the queue behind the cursor, and a
further entry of a claimed waiter is passed over, so the records claimed are the
first of the distinct waiters, in queue order.
-/

/-! ## Lists without some entries -/

/-- Every list of a family without the entries in `gone`. -/
def without (gone : List Nat) (queue : Nat -> List Nat) : Nat -> List Nat :=
  fun bucket => (queue bucket).filter (fun id => id ∉ gone)

section Without

variable {queue : Nat -> List Nat} {bucket id node : Nat} {gone : List Nat}

theorem without_nil : without [] queue = queue := by
  funext bucket
  unfold without
  simp

theorem without_append {more : List Nat} :
    without more (without gone queue) = without (gone ++ more) queue := by
  funext bucket
  unfold without
  rw [List.filter_filter]
  congr 1
  funext node
  simp [Bool.and_comm]

theorem without_cons : without gone (without [id] queue) = without (id :: gone) queue :=
  without_append

theorem mem_without : node ∈ without gone queue bucket <-> node ∈ queue bucket ∧ node ∉ gone := by
  unfold without
  rw [List.mem_filter, decide_eq_true_eq]

theorem without_one (nodup : (queue bucket).Nodup)
    (only : ∀ other, id ∈ queue other -> other = bucket) :
    Function.update queue bucket ((queue bucket).erase id) = without [id] queue := by
  funext other
  by_cases same : other = bucket
  · subst same
    rw [Function.update_self, nodup.erase_eq_filter]
    unfold without
    congr 1
    funext node
    by_cases here : node = id
    · simp [here]
    · simp [here]
  rw [Function.update_of_ne same]
  unfold without
  symm
  rw [List.filter_eq_self]
  intro node listed
  rw [decide_eq_true_eq, List.mem_singleton]
  intro here
  exact same (only other (here ▸ listed))

end Without

/-! ## Waiters -/

theorem eligible_some {zone : Tables} {mm uaddr bitset id record : Nat} :
    zone.eligible mm uaddr bitset id = some record <->
      (zone.entry id).mm = mm ∧ (zone.entry id).uaddr = uaddr ∧
        (zone.entry id).bitset &&& bitset ≠ 0 ∧ (zone.entry id).record ≠ 0 ∧
        (zone.record (zone.entry id).record).claim = .parked (zone.entry id).seq ∧
        (zone.entry id).record = record := by
  unfold Tables.eligible
  split_ifs with mismatch free parked
  · constructor
    · intro wrong
      cases wrong
    rintro ⟨sameMm, sameUaddr, meets, _⟩
    rcases mismatch with wrong | wrong | wrong
    · exact absurd sameMm wrong
    · exact absurd sameUaddr wrong
    · exact absurd wrong meets
  · constructor
    · intro wrong
      cases wrong
    · rintro ⟨_, _, _, used, _⟩
      exact absurd free used
  · rw [not_or, not_or, not_not, not_not] at mismatch
    rw [Option.some.injEq]
    exact ⟨fun same => ⟨mismatch.1, mismatch.2.1, mismatch.2.2, free, parked, same⟩,
      fun all => all.2.2.2.2.2⟩
  constructor
  · intro wrong
    cases wrong
  · rintro ⟨_, _, _, _, wrong, _⟩
    exact absurd wrong parked

/-- The parked records that wait on the futex, in the order of their first entries. -/
def waiters (zone : Tables) (mm uaddr bitset : Nat) (entries : List Nat) : List Nat :=
  (entries.filterMap (zone.eligible mm uaddr bitset)).eraseDups

/-- What the claim of a woken record can be. -/
def Taken (seq : Nat) (claim : Claim) : Prop :=
  (∃ slot, claim = .queued slot seq) ∨ claim = .transferring seq false false

/-- A wake took the waiters of `hits` and nothing else: each is claimed with its
own result, and all its entries are off the lists. -/
structure Served (zone later : Tables) (queue chain : Nat -> List Nat) (hits : List Nat) : Prop where
  formed : Formed later (without hits queue) (without hits chain)
  members : ∀ id ∈ hits, ∃ bucket, id ∈ queue bucket
  claimed : ∀ id ∈ hits,
    Taken (zone.entry id).seq (later.record (zone.entry id).record).claim ∧
      (later.record (zone.entry id).record).result = (zone.entry id).index ∧
      (later.record (zone.entry id).record).handback ≠ none
  records : ∀ record, record ∉ hits.map (fun id => (zone.entry id).record) ->
    later.record record = zone.record record
  entries : ∀ id, id ∉ hits -> (later.entry id).bare = (zone.entry id).bare

namespace Served

variable {zone middle later : Tables} {queue chain : Nat -> List Nat} {id : Nat}
  {gone hits : List Nat}

theorem refl (formed : Formed zone queue chain) : Served zone zone queue chain [] where
  formed := by
    rw [without_nil, without_nil]
    exact formed
  members := by
    intro id wrong
    cases wrong
  claimed := by
    intro id wrong
    cases wrong
  records := fun _ _ => rfl
  entries := fun _ _ => rfl

theorem record_kept (first : Served zone middle queue chain gone) (absent : id ∉ gone) :
    (middle.entry id).record = (zone.entry id).record :=
  ZoneEntry.bare_reads ZoneEntry.record (fun _ => rfl) (first.entries id absent)

theorem records_map (first : Served zone middle queue chain gone)
    (apart : ∀ id ∈ hits, id ∉ gone) :
    hits.map (fun node => (middle.entry node).record) =
      hits.map (fun node => (zone.entry node).record) := by
  refine List.map_congr_left ?_
  intro node listed
  exact first.record_kept (apart node listed)

theorem apart (rest : Served middle later (without gone queue) (without gone chain) hits) :
    ∀ id ∈ hits, id ∉ gone := by
  intro id listed
  rcases rest.members id listed with ⟨bucket, inQueue⟩
  exact (mem_without.mp inQueue).2

theorem append (first : Served zone middle queue chain gone)
    (rest : Served middle later (without gone queue) (without gone chain) hits)
    (once : ∀ id ∈ gone,
      (zone.entry id).record ∉ hits.map (fun node => (zone.entry node).record)) :
    Served zone later queue chain (gone ++ hits) := by
  have sameMap := first.records_map rest.apart
  constructor
  case formed =>
    have formed := rest.formed
    rw [without_append, without_append] at formed
    exact formed
  case members =>
    intro node listed
    rcases List.mem_append.mp listed with early | late
    · exact first.members node early
    · rcases rest.members node late with ⟨bucket, inQueue⟩
      exact ⟨bucket, (mem_without.mp inQueue).1⟩
  case claimed =>
    intro node listed
    rcases List.mem_append.mp listed with early | late
    · have untouched := rest.records (zone.entry node).record (by rw [sameMap]; exact once node early)
      rw [untouched]
      exact first.claimed node early
    have kept := first.entries node (rest.apart node late)
    have claimed := rest.claimed node late
    rw [first.record_kept (rest.apart node late),
      ZoneEntry.bare_reads ZoneEntry.seq (fun _ => rfl) kept,
      ZoneEntry.bare_reads ZoneEntry.index (fun _ => rfl) kept] at claimed
    exact claimed
  case records =>
    intro record absent
    rw [List.map_append, List.mem_append, not_or] at absent
    rw [rest.records record (by rw [sameMap]; exact absent.2)]
    exact first.records record absent.1
  case entries =>
    intro node absent
    rw [List.mem_append, not_or] at absent
    rw [rest.entries node absent.2]
    exact first.entries node absent.1

end Served

/-- An entry goes off its queue and its chain, and its record is rewritten but
for the head and the length of the chain. -/
theorem Formed.without_entry {zone : Tables} {queue chain : Nat -> List Nat} {bucket id : Nat}
    {value : ZoneRecord} (formed : Formed zone queue chain) (inQueue : id ∈ queue bucket)
    (first : value.firstEntry = (zone.record (zone.entry id).record).firstEntry)
    (count : value.entryCount = (zone.record (zone.entry id).record).entryCount) :
    Formed (((zone.setRecord (zone.entry id).record value).unlink bucket id).dropEntry
      (zone.entry id).record id) (without [id] queue) (without [id] chain) := by
  have allocated := ((formed.listed bucket id).mp inQueue).1
  have inChain : id ∈ chain (zone.entry id).record := (formed.held _ id).mpr ⟨allocated, rfl⟩
  have onlyQueue : ∀ other, id ∈ queue other -> other = bucket :=
    fun other inOther => formed.queued.apart other bucket id inOther inQueue
  have onlyChain : ∀ other, id ∈ chain other -> other = (zone.entry id).record :=
    fun other inOther => formed.chained.apart other _ id inOther inChain
  rw [<- without_one (formed.queued.nodup bucket) onlyQueue,
    <- without_one (formed.chained.nodup (zone.entry id).record) onlyChain]
  exact (formed.setRecord first count).release inQueue inChain

theorem claimEntry_served {zone : Tables} {queue chain : Nat -> List Nat} {bucket id : Nat}
    {claim : Claim} {handback : Handback} (formed : Formed zone queue chain)
    (inQueue : id ∈ queue bucket) (taken : Taken (zone.entry id).seq claim) :
    Served zone (zone.claimEntry bucket id (zone.entry id).record claim handback) queue chain
      [id] := by
  have recordOf : ∀ {Value : Type} (reading : ZoneRecord -> Value),
      (∀ (value : ZoneRecord) first count,
        reading { value with firstEntry := first, entryCount := count } = reading value) ->
      reading ((zone.claimEntry bucket id (zone.entry id).record claim handback).record
        (zone.entry id).record) =
      reading { zone.record (zone.entry id).record with
        claim := claim, result := (zone.entry id).index, handback := some handback } := by
    intro Value reading free
    unfold Tables.claimEntry
    rw [dropEntry_record_reads _ reading free, unlink_record, setRecord_record, if_pos rfl]
  constructor
  case formed => exact formed.without_entry inQueue rfl rfl
  case members =>
    intro node listed
    exact ⟨bucket, List.mem_singleton.mp listed ▸ inQueue⟩
  case claimed =>
    intro node listed
    rw [List.mem_singleton.mp listed, recordOf ZoneRecord.claim (fun _ _ _ => rfl),
      recordOf ZoneRecord.result (fun _ _ _ => rfl), recordOf ZoneRecord.handback (fun _ _ _ => rfl)]
    exact ⟨taken, rfl, nofun⟩
  case records =>
    intro record absent
    have apart : record ≠ (zone.entry id).record := by simpa using absent
    unfold Tables.claimEntry
    rw [dropEntry_record_other _ apart, unlink_record, setRecord_record, if_neg apart]
  case entries =>
    intro node absent
    have apart : node ≠ id := by simpa using absent
    unfold Tables.claimEntry
    rw [dropEntry_bare, if_neg apart, unlink_bare]
    rfl

/-! ## The walk -/

section Walk

variable {mm uaddr bitset bucket : Nat}

theorem eligible_served {zone later : Tables} {queue chain : Nat -> List Nat} {gone : List Nat}
    {node : Nat} (served : Served zone later queue chain gone) (apart : node ∉ gone) :
    later.eligible mm uaddr bitset node =
      if (zone.entry node).record ∈ gone.map (fun id => (zone.entry id).record) then none
      else zone.eligible mm uaddr bitset node := by
  have kept := served.entries node apart
  have sameRecord := ZoneEntry.bare_reads ZoneEntry.record (fun _ => rfl) kept
  have sameSeq := ZoneEntry.bare_reads ZoneEntry.seq (fun _ => rfl) kept
  have sameMm := ZoneEntry.bare_reads ZoneEntry.mm (fun _ => rfl) kept
  have sameUaddr := ZoneEntry.bare_reads ZoneEntry.uaddr (fun _ => rfl) kept
  have sameBitset := ZoneEntry.bare_reads ZoneEntry.bitset (fun _ => rfl) kept
  refine Option.ext ?_
  intro record
  rw [eligible_some, sameRecord, sameSeq, sameMm, sameUaddr, sameBitset]
  by_cases same : (zone.entry node).record ∈ gone.map (fun id => (zone.entry id).record)
  · rw [if_pos same]
    rcases List.mem_map.mp same with ⟨id, listed, equal⟩
    have taken := (served.claimed id listed).1
    constructor
    · rintro ⟨_, _, _, _, parked, _⟩
      rw [equal, parked] at taken
      rcases taken with ⟨slot, wrong⟩ | wrong
      · cases wrong
      · cases wrong
    · intro wrong
      cases wrong
  · rw [if_neg same, eligible_some, served.records _ same]

variable {entries : List Nat}

variable {queue chain : Nat -> List Nat} {zone later : Tables}

theorem filterMap_served {gone : List Nat}
    (served : Served zone later queue chain gone) (apart : ∀ id ∈ entries, id ∉ gone) :
    entries.filterMap (later.eligible mm uaddr bitset) =
      (entries.filterMap (zone.eligible mm uaddr bitset)).filter
        (fun record => record ∉ gone.map (fun id => (zone.entry id).record)) := by
  induction entries with
  | nil => rfl
  | cons node rest ih =>
    have further := ih
      (fun id listed => apart id (List.mem_cons_of_mem _ listed))
    have here := @eligible_served mm uaddr bitset _ _ _ _ _ node served (apart node (by simp))
    rw [List.filterMap_cons, List.filterMap_cons, here]
    cases found : zone.eligible mm uaddr bitset node with
    | none =>
      rw [ite_self]
      exact further
    | some record =>
      have named := (eligible_some.mp found).2.2.2.2.2
      by_cases same : (zone.entry node).record ∈ gone.map (fun id => (zone.entry id).record)
      · rw [if_pos same, List.filter_cons_of_neg]
        · exact further
        · rw [<- named]
          simpa using same
      · rw [if_neg same, List.filter_cons_of_pos]
        · exact congrArg _ further
        · rw [<- named]
          simpa using same

variable {rest : List Nat}

theorem waiters_cons_none {id : Nat}
    (none : zone.eligible mm uaddr bitset id = none) :
    waiters zone mm uaddr bitset (id :: rest) = waiters zone mm uaddr bitset rest := by
  unfold waiters
  rw [List.filterMap_cons, none]

theorem waiters_cons_some {id : Nat}
    (served : Served zone later queue chain [id]) (apart : id ∉ rest)
    (found : zone.eligible mm uaddr bitset id = some (zone.entry id).record) :
    waiters zone mm uaddr bitset (id :: rest) =
      (zone.entry id).record :: waiters later mm uaddr bitset rest := by
  unfold waiters
  have others : ∀ node ∈ rest, node ∉ [id] :=
    fun node listed same => apart (List.mem_singleton.mp same ▸ listed)
  rw [List.filterMap_cons, found, filterMap_served served others]
  refine List.eraseDups_cons.trans ?_
  congr 2
  refine List.filter_congr ?_
  intro record _
  by_cases same : record = (zone.entry id).record
  · simp [same]
  · simp [same]

theorem mem_waiters {record : Nat} :
    record ∈ waiters zone mm uaddr bitset entries <->
      ∃ id ∈ entries, zone.eligible mm uaddr bitset id = some record := by
  unfold waiters
  rw [List.mem_eraseDups, List.mem_filterMap]

theorem served_not_waiter {id : Nat}
    {gone : List Nat} (served : Served zone later queue chain gone) (claimed : id ∈ gone)
    (apart : ∀ id ∈ entries, id ∉ gone) :
    (zone.entry id).record ∉ waiters later mm uaddr bitset entries := by
  intro listed
  rcases mem_waiters.mp listed with ⟨node, inEntries, found⟩
  rw [eligible_served served (apart node inEntries)] at found
  by_cases same : (zone.entry node).record ∈ gone.map (fun id => (zone.entry id).record)
  · rw [if_pos same] at found
    cases found
  · rw [if_neg same] at found
    have named := (eligible_some.mp found).2.2.2.2.2
    exact same (List.mem_map.mpr ⟨id, claimed, named.symm⟩)

variable {visit : Tables -> Nat -> Option Tables}

theorem walk_end (zone : Tables) (fuel limit : Nat) :
    Tables.walk visit fuel 0 limit zone = (zone, []) := by
  cases fuel with
  | zero => rfl
  | succ fuel =>
    cases limit with
    | zero => rfl
    | succ limit =>
      unfold Tables.walk
      rw [if_pos rfl]

variable {fuel : Nat}

theorem walk_pass {limit cursor : Nat} (nonzero : cursor ≠ 0)
    (passed : visit zone cursor = none) :
    Tables.walk visit (fuel + 1) cursor (limit + 1) zone =
      Tables.walk visit fuel (zone.entry cursor).next (limit + 1) zone := by
  rw [Tables.walk, if_neg nonzero, passed]

theorem walk_hit {limit cursor : Nat} (nonzero : cursor ≠ 0)
    (hit : visit zone cursor = some later) :
    Tables.walk visit (fuel + 1) cursor (limit + 1) zone =
      ((Tables.walk visit fuel (zone.entry cursor).next limit later).1,
        cursor :: (Tables.walk visit fuel (zone.entry cursor).next limit later).2) := by
  rw [Tables.walk, if_neg nonzero, hit]

variable {front : List Nat}

theorem next_eq {id : Nat} (queued : Queued zone queue)
    (shape : queue bucket = front ++ id :: rest) :
    (zone.entry id).next = rest.head?.getD 0 := by
  have path := queued.forward bucket
  rw [shape] at path
  exact path.split_at.2.start_eq

theorem without_middle {id : Nat} (nodup : (queue bucket).Nodup)
    (shape : queue bucket = front ++ id :: rest) :
    without [id] queue bucket = front ++ rest := by
  rw [<- erase_middle (shape ▸ nodup), <- shape, nodup.erase_eq_filter]
  unfold without
  congr 1
  funext node
  by_cases here : node = id
  · simp [here]
  · simp [here]

variable {claim : Tables -> Nat -> Nat -> Claim × Handback}

/-- A walk claims the first of the waiters that it has not passed. -/
theorem wake_walk (takes : ∀ zone record seq, Taken seq (claim zone record seq).1)
    {rest front : List Nat} {zone : Tables} {queue chain : Nat -> List Nat} {fuel limit : Nat}
    (formed : Formed zone queue chain) (shape : queue bucket = front ++ rest)
    (enough : rest.length < fuel) :
    Served zone (Tables.walk (Tables.wakeVisit bucket mm uaddr bitset claim) fuel
        (rest.head?.getD 0) limit zone).1 queue chain
        (Tables.walk (Tables.wakeVisit bucket mm uaddr bitset claim) fuel
          (rest.head?.getD 0) limit zone).2 ∧
      (Tables.walk (Tables.wakeVisit bucket mm uaddr bitset claim) fuel
          (rest.head?.getD 0) limit zone).2.map (fun id => (zone.entry id).record) =
        (waiters zone mm uaddr bitset rest).take limit ∧
      (Tables.walk (Tables.wakeVisit bucket mm uaddr bitset claim) fuel
          (rest.head?.getD 0) limit zone).2 ⊆ rest := by
  induction rest generalizing front zone queue chain fuel limit with
  | nil =>
    rw [List.head?_nil, Option.getD_none, walk_end]
    exact ⟨Served.refl formed, by simp [waiters], by simp⟩
  | cons id rest ih =>
    cases fuel with
    | zero => exact absurd enough (Nat.not_lt_zero _)
    | succ fuel =>
      cases limit with
      | zero => exact ⟨Served.refl formed, by simp [Tables.walk], by simp [Tables.walk]⟩
      | succ limit =>
        have inQueue : id ∈ queue bucket := by
          rw [shape]
          simp
        have nonzero : id ≠ 0 := fun wrong => formed.queued.nonzero bucket (wrong ▸ inQueue)
        have once : (front ++ id :: rest).Nodup := shape ▸ formed.queued.nodup bucket
        have absent : id ∉ rest := (List.nodup_cons.mp (List.nodup_append.mp once).2.1).1
        have further : rest.length < fuel := Nat.lt_of_succ_lt_succ enough
        rw [List.head?_cons, Option.getD_some]
        cases found : zone.eligible mm uaddr bitset id with
        | none =>
          have passed : Tables.wakeVisit bucket mm uaddr bitset claim zone id = none := by
            rw [Tables.wakeVisit, found]
          rw [walk_pass nonzero passed, next_eq formed.queued shape, waiters_cons_none found]
          have walked := @ih (front ++ [id]) zone queue chain fuel
            (limit + 1) formed (by rw [shape]; simp) further
          exact ⟨walked.1, walked.2.1, fun node hit => List.mem_cons_of_mem _ (walked.2.2 hit)⟩
        | some record =>
          have named := (eligible_some.mp found).2.2.2.2.2
          subst named
          have hit : Tables.wakeVisit bucket mm uaddr bitset claim zone id =
              some (zone.claimEntry bucket id (zone.entry id).record
                (claim zone (zone.entry id).record (zone.entry id).seq).1
                (claim zone (zone.entry id).record (zone.entry id).seq).2) := by
            rw [Tables.wakeVisit, found]
          rw [walk_hit nonzero hit, next_eq formed.queued shape]
          have served := @claimEntry_served zone queue chain bucket id
            (claim zone (zone.entry id).record (zone.entry id).seq).1
            (claim zone (zone.entry id).record (zone.entry id).seq).2 formed inQueue
            (takes zone (zone.entry id).record (zone.entry id).seq)
          have walked := @ih front _ _ _ fuel limit served.formed
            (without_middle (formed.queued.nodup bucket) shape) further
          rcases walked with ⟨servedRest, recordsRest, subset⟩
          rw [served.records_map servedRest.apart] at recordsRest
          refine ⟨served.append servedRest ?_, ?_, ?_⟩
          · intro node listed
            rw [List.mem_singleton.mp listed, recordsRest]
            have others : ∀ node ∈ rest, node ∉ [id] :=
              fun node inRest same => absent (List.mem_singleton.mp same ▸ inRest)
            exact fun wrong => served_not_waiter served (by simp) others
              (List.mem_of_mem_take wrong)
          · rw [List.map_cons, recordsRest, waiters_cons_some served absent found,
              List.take_succ_cons]
          · exact List.cons_subset_cons id subset

/-! ## The three wakes -/

theorem eraseDups_nodup_length (records : List Nat) :
    records.eraseDups.Nodup ∧ records.eraseDups.length <= records.length := by
  induction size : records.length using Nat.strongRecOn generalizing records with
  | ind size' ih =>
    subst size
    cases records with
    | nil => exact ⟨by simp, by simp⟩
    | cons head rest =>
      have shorter : (rest.filter (fun record => !record == head)).length <= rest.length :=
        List.length_filter_le _ _
      have further := ih _ (Nat.lt_succ_of_le shorter) _ rfl
      rw [List.eraseDups_cons]
      refine ⟨List.nodup_cons.mpr ⟨?_, further.1⟩, ?_⟩
      · rw [List.mem_eraseDups, List.mem_filter]
        rintro ⟨_, wrong⟩
        simp at wrong
      · rw [List.length_cons, List.length_cons]
        exact Nat.succ_le_succ (Nat.le_trans further.2 shorter)

variable {count : Nat}

/-- The first pass of an EL1 wake counts the entries that its second pass may claim. -/
theorem plan_ok {placement : Nat -> Option Nat}
    {planned : Nat} (formed : Formed zone queue chain) (shape : queue bucket = front ++ rest)
    (enough : rest.length < fuel)
    (ok : zone.plan mm uaddr bitset placement fuel (rest.head?.getD 0) count = .ok planned) :
    planned = min count (rest.filterMap (zone.eligible mm uaddr bitset)).length := by
  induction rest generalizing front fuel count planned with
  | nil =>
    cases fuel with
    | zero => exact absurd enough (Nat.not_lt_zero _)
    | succ fuel =>
      cases count with
      | zero =>
        cases ok
        simp
      | succ count =>
        rw [Tables.plan, List.head?_nil, Option.getD_none, if_pos rfl] at ok
        cases ok
        simp
  | cons id rest ih =>
    cases fuel with
    | zero => exact absurd enough (Nat.not_lt_zero _)
    | succ fuel =>
      have inQueue : id ∈ queue bucket := by
        rw [shape]
        simp
      have nonzero : id ≠ 0 := fun wrong => formed.queued.nonzero bucket (wrong ▸ inQueue)
      have further : rest.length < fuel := Nat.lt_of_succ_lt_succ enough
      have again : queue bucket = (front ++ [id]) ++ rest := by
        rw [shape]
        simp
      cases count with
      | zero =>
        cases ok
        simp
      | succ count =>
        rw [Tables.plan, List.head?_cons, Option.getD_some, if_neg nonzero,
          next_eq formed.queued shape] at ok
        rw [List.filterMap_cons]
        cases found : zone.eligible mm uaddr bitset id with
        | none =>
          rw [found] at ok
          exact ih again further ok
        | some record =>
          rw [found] at ok
          dsimp only at ok
          split_ifs at ok with several placed
          cases rec : zone.plan mm uaddr bitset placement fuel (rest.head?.getD 0) count with
          | error refusal =>
            rw [rec] at ok
            cases ok
          | ok less =>
            rw [rec] at ok
            cases ok
            have counted := ih again further rec
            rw [List.length_cons, counted]
            omega

theorem rounds_enough (formed : Formed zone queue chain) :
    (queue bucket).length < Tables.rounds := by
  have bound := formed.queue_length_le bucket
  unfold Tables.rounds
  omega

theorem wake_from_head {limit : Nat}
    (takes : ∀ zone record seq, Taken seq (claim zone record seq).1)
    (formed : Formed zone queue chain) :
    Served zone (Tables.walk (Tables.wakeVisit bucket mm uaddr bitset claim) Tables.rounds
        (zone.bucket bucket).head limit zone).1 queue chain
        (Tables.walk (Tables.wakeVisit bucket mm uaddr bitset claim) Tables.rounds
          (zone.bucket bucket).head limit zone).2 ∧
      (Tables.walk (Tables.wakeVisit bucket mm uaddr bitset claim) Tables.rounds
          (zone.bucket bucket).head limit zone).2.map (fun id => (zone.entry id).record) =
        (waiters zone mm uaddr bitset (queue bucket)).take limit := by
  rw [formed.queued.head_eq]
  have walked := @wake_walk mm uaddr bitset bucket claim takes (queue bucket) [] zone queue chain
    Tables.rounds limit formed rfl (rounds_enough formed)
  exact ⟨walked.1, walked.2.1⟩

theorem wakeHost_served {place : Tables -> Nat -> Option Nat} (formed : Formed zone queue chain) :
    Served zone (zone.wakeHost bucket mm uaddr bitset count place).1 queue chain
        (zone.wakeHost bucket mm uaddr bitset count place).2 ∧
      (zone.wakeHost bucket mm uaddr bitset count place).2.map (fun id => (zone.entry id).record) =
        (waiters zone mm uaddr bitset (queue bucket)).take count := by
  refine wake_from_head ?_ formed
  intro zone record seq
  dsimp only
  split_ifs
  · cases place zone record with
    | none => exact .inr rfl
    | some slot => exact .inl ⟨slot, rfl⟩
  · exact .inr rfl

theorem wakeBatch_served {count batch : Nat} (formed : Formed zone queue chain) :
    Served zone (zone.wakeBatch bucket mm uaddr bitset count batch).1 queue chain
        (zone.wakeBatch bucket mm uaddr bitset count batch).2 ∧
      (zone.wakeBatch bucket mm uaddr bitset count batch).2.map
          (fun id => (zone.entry id).record) =
        (waiters zone mm uaddr bitset (queue bucket)).take (min count batch) :=
  wake_from_head (fun _ _ _ => .inr rfl) formed

/-- A wake from EL1 that is not refused claims as many waiters as it is asked for. -/
theorem wakeEl1_served {placement : Tables -> Nat -> Option Nat} {place : Tables -> Nat -> Nat}
    {hits : List Nat} (formed : Formed zone queue chain)
    (ok : zone.wakeEl1 bucket mm uaddr bitset count placement place = .ok (later, hits)) :
    Served zone later queue chain hits ∧
      hits.map (fun id => (zone.entry id).record) =
        (waiters zone mm uaddr bitset (queue bucket)).take count := by
  rw [Tables.wakeEl1] at ok
  cases planned : zone.plan mm uaddr bitset (placement zone) Tables.rounds
      (zone.bucket bucket).head count with
  | error refusal =>
    rw [planned] at ok
    cases ok
  | ok limit =>
    rw [planned] at ok
    have result := Except.ok.inj ok
    have taken : ∀ zone record seq,
        Taken seq (Claim.queued (place zone record) seq, zone.wokenHandback record).1 :=
      fun zone record _ => .inl ⟨place zone record, rfl⟩
    have walked := @wake_from_head mm uaddr bitset bucket queue chain zone
      (fun zone record seq => (.queued (place zone record) seq, zone.wokenHandback record)) limit
      taken formed
    rw [result] at walked
    refine ⟨walked.1, walked.2.trans ?_⟩
    rw [formed.queued.head_eq] at planned
    have counted := plan_ok formed (List.nil_append _).symm (rounds_enough formed) planned
    have fewer : (waiters zone mm uaddr bitset (queue bucket)).length <=
        ((queue bucket).filterMap (zone.eligible mm uaddr bitset)).length :=
      (eraseDups_nodup_length _).2
    rw [counted]
    rcases Nat.le_total count ((queue bucket).filterMap (zone.eligible mm uaddr bitset)).length
      with less | more
    · rw [Nat.min_eq_left less]
    · rw [Nat.min_eq_right more, List.take_of_length_le fewer,
        List.take_of_length_le (Nat.le_trans fewer more)]

/-! ## Wakes in batches -/

theorem eraseDups_filter (keeps : Nat -> Bool) (records : List Nat) :
    (records.filter keeps).eraseDups = records.eraseDups.filter keeps := by
  induction size : records.length using Nat.strongRecOn generalizing records with
  | ind size' ih =>
    subst size
    cases records with
    | nil => rfl
    | cons head rest =>
      have shorter : (rest.filter (fun record => !record == head)).length <= rest.length :=
        List.length_filter_le _ _
      have further := ih _ (Nat.lt_succ_of_le shorter) _ rfl
      rw [List.eraseDups_cons]
      cases kept : keeps head with
      | true =>
        rw [List.filter_cons_of_pos kept, List.filter_cons_of_pos kept, List.eraseDups_cons,
          <- further, List.filter_filter, List.filter_filter]
        simp only [Bool.and_comm]
      | false =>
        have dropped : ¬ keeps head = true := by simp [kept]
        rw [List.filter_cons_of_neg dropped, List.filter_cons_of_neg dropped, <- further,
          List.filter_filter]
        congr 1
        refine List.filter_congr ?_
        intro record _
        by_cases same : record = head
        · rw [same, kept]
          rfl
        · simp [same]

theorem filter_take (records : List Nat) (distinct : records.Nodup) (count : Nat) :
    records.filter (fun record => record ∉ records.take count) = records.drop count := by
  have parts := List.nodup_append.mp (show (records.take count ++ records.drop count).Nodup by
    rw [List.take_append_drop]
    exact distinct)
  conv_lhs =>
    arg 2
    rw [<- List.take_append_drop count records]
  rw [List.filter_append, List.filter_eq_nil_iff.mpr, List.filter_eq_self.mpr, List.nil_append]
  · intro record late
    rw [decide_eq_true_eq]
    exact fun early => parts.2.2 record early record late rfl
  · intro record early
    simpa using early

theorem waiters_served {gone : List Nat}
    (served : Served zone later queue chain gone)
    (claimed : gone.map (fun id => (zone.entry id).record) = (waiters zone mm uaddr bitset (queue
      bucket)).take count) :
    waiters later mm uaddr bitset (without gone queue bucket) =
      (waiters zone mm uaddr bitset (queue bucket)).drop count := by
  have apart : ∀ id ∈ without gone queue bucket, id ∉ gone :=
    fun id listed => (mem_without.mp listed).2
  have same : ((without gone queue bucket).filterMap (zone.eligible mm uaddr bitset)).filter
        (fun record => record ∉ gone.map (fun id => (zone.entry id).record)) =
      ((queue bucket).filterMap (zone.eligible mm uaddr bitset)).filter
        (fun record => record ∉ gone.map (fun id => (zone.entry id).record)) := by
    unfold without
    induction queue bucket with
    | nil => rfl
    | cons id rest ih =>
      by_cases hit : id ∈ gone
      · rw [List.filter_cons_of_neg (by simpa using hit), ih,
          List.filterMap_cons]
        cases found : zone.eligible mm uaddr bitset id with
        | none => rfl
        | some record =>
          have named := (eligible_some.mp found).2.2.2.2.2
          rw [List.filter_cons_of_neg]
          rw [<- named]
          simpa using ⟨id, hit, rfl⟩
      · rw [List.filter_cons_of_pos (by simpa using hit), List.filterMap_cons,
          List.filterMap_cons]
        cases found : zone.eligible mm uaddr bitset id with
        | none => exact ih
        | some record =>
          rw [List.filter_cons, List.filter_cons, ih]
  unfold waiters
  rw [filterMap_served served apart, same, eraseDups_filter, claimed]
  exact filter_take _ (eraseDups_nodup_length _).1 count

/-- The loop over batches claims as many waiters as it is asked for. -/
theorem wakeLoop_served {remaining : Nat}
    (formed : Formed zone queue chain) (enough : remaining <= fuel) :
    Served zone (Tables.wakeLoop bucket mm uaddr fuel remaining zone).1 queue chain
        (Tables.wakeLoop bucket mm uaddr fuel remaining zone).2 ∧
      (Tables.wakeLoop bucket mm uaddr fuel remaining zone).2.map
          (fun id => (zone.entry id).record) =
        (waiters zone mm uaddr 4294967295 (queue bucket)).take remaining := by
  induction fuel generalizing remaining zone queue chain with
  | zero =>
    rw [Nat.le_zero.mp enough]
    exact ⟨Served.refl formed, by simp [Tables.wakeLoop]⟩
  | succ fuel ih =>
    unfold Tables.wakeLoop
    by_cases done : remaining = 0
    · rw [if_pos done, done]
      exact ⟨Served.refl formed, by simp⟩
    rw [if_neg done]
    dsimp only
    have batch := @wakeBatch_served mm uaddr 4294967295 bucket queue chain zone remaining 64 formed
    have counted := congrArg List.length batch.2
    rw [List.length_map, List.length_take] at counted
    by_cases short : (zone.wakeBatch bucket mm uaddr 4294967295 remaining 64).2.length < 64
    · rw [if_pos short]
      refine ⟨batch.1, batch.2.trans ?_⟩
      rcases Nat.le_total remaining 64 with less | more
      · rw [Nat.min_eq_left less]
      · have all : (waiters zone mm uaddr 4294967295 (queue bucket)).length <= min remaining 64 := by
          omega
        rw [List.take_of_length_le all, List.take_of_length_le]
        omega
    rw [if_neg short]
    have full : (zone.wakeBatch bucket mm uaddr 4294967295 remaining 64).2.length = 64 := by
      omega
    have several : min remaining 64 = 64 := by
      omega
    rw [several] at batch
    rw [full]
    have rest := @ih _ _ _ (remaining - 64) batch.1.formed (by omega)
    rw [waiters_served batch.1 batch.2, batch.1.records_map rest.1.apart] at rest
    refine ⟨batch.1.append rest.1 ?_, ?_⟩
    · intro id claimed
      rw [rest.2, <- waiters_served batch.1 batch.2]
      exact fun wrong => served_not_waiter batch.1 claimed
        (fun _ listed => (mem_without.mp listed).2) (List.mem_of_mem_take wrong)
    · rw [List.map_append, batch.2, rest.2, <- List.take_add]
      congr 1
      omega

end Walk

end Zone
end Carrick
