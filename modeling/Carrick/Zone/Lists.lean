import Mathlib.Data.List.Nodup
import Carrick.Zone.Tables

namespace Carrick
namespace Zone

open Foundation
open Function (update_of_ne update_self)

/-!
# The two lists of an entry

`Queues` says what the buckets hold and `Chains` what the records hold.  Linking
and unlinking act on the queues alone, and the chains are changed by the two
functions that give an entry to a record and take it away.
-/

/-! ## What the functions write -/

section Fields

variable (zone : Tables) {bucket other id node record : Nat}

theorem setEntry_entry (entry : ZoneEntry) :
    (zone.setEntry id entry).entry node = if node = id then entry else zone.entry node := by
  show Function.update zone.entry id entry node = _
  by_cases same : node = id
  · rw [same, update_self, if_pos rfl]
  · rw [update_of_ne same, if_neg same]

theorem setBucket_bucket (value : ZoneBucket) :
    (zone.setBucket bucket value).bucket other = if other = bucket then value
      else zone.bucket other := by
  show Function.update zone.bucket bucket value other = _
  by_cases same : other = bucket
  · rw [same, update_self, if_pos rfl]
  · rw [update_of_ne same, if_neg same]

theorem setRecord_record (value : ZoneRecord) :
    (zone.setRecord record value).record other = if other = record then value
      else zone.record other := by
  show Function.update zone.record record value other = _
  by_cases same : other = record
  · rw [same, update_self, if_pos rfl]
  · rw [update_of_ne same, if_neg same]

theorem setMap_entryMap (used : Bool) :
    (zone.setMap id used).entryMap node = if node = id then used else zone.entryMap node := by
  show Function.update zone.entryMap id used node = _
  by_cases same : node = id
  · rw [same, update_self, if_pos rfl]
  · rw [update_of_ne same, if_neg same]

theorem linkTail_record : (zone.linkTail bucket id).record = zone.record := by
  unfold Tables.linkTail
  dsimp only
  split_ifs
  · rfl
  · rfl

theorem linkTail_entryMap : (zone.linkTail bucket id).entryMap = zone.entryMap := by
  unfold Tables.linkTail
  dsimp only
  split_ifs
  · rfl
  · rfl

theorem linkTail_bucket : (zone.linkTail bucket id).bucket other =
    if other = bucket then
      { head := if (zone.bucket bucket).tail = 0 then id else (zone.bucket bucket).head,
        tail := id, len := (zone.bucket bucket).len + 1 }
    else zone.bucket other := by
  unfold Tables.linkTail
  dsimp only
  rw [setBucket_bucket]
  by_cases same : other = bucket
  · rw [if_pos same, if_pos same]
    split_ifs with empty
    · rw [setBucket_bucket, if_pos rfl]
      rfl
    · rfl
  rw [if_neg same, if_neg same]
  split_ifs with empty
  · rw [setBucket_bucket, if_neg same]
    rfl
  · rfl

theorem linkTail_entry (apart : (zone.bucket bucket).tail ≠ id) :
    (zone.linkTail bucket id).entry node =
      if node = id then
        { zone.entry id with prev := (zone.bucket bucket).tail, next := 0, bucket := bucket }
      else if node = (zone.bucket bucket).tail ∧ node ≠ 0 then { zone.entry node with next := id }
      else zone.entry node := by
  unfold Tables.linkTail
  dsimp only
  by_cases empty : (zone.bucket bucket).tail = 0
  · rw [if_pos empty]
    show (zone.setEntry id _).entry node = _
    rw [setEntry_entry]
    have notTail : ¬ (node = (zone.bucket bucket).tail ∧ node ≠ 0) :=
      fun both => both.2 (both.1.trans empty)
    rw [if_neg notTail]
  rw [if_neg empty]
  show ((zone.setEntry id _).setEntry _ _).entry node = _
  rw [setEntry_entry, setEntry_entry, setEntry_entry, if_neg apart]
  by_cases last : node = (zone.bucket bucket).tail
  · have other : node ≠ id := fun wrong => apart (last.symm.trans wrong)
    have nonzero : node ≠ 0 := fun wrong => empty (last.symm.trans wrong)
    rw [if_pos last, if_neg other, if_pos ⟨last, nonzero⟩, last]
  · rw [if_neg last, if_neg (fun both => last both.1 :
      ¬ (node = (zone.bucket bucket).tail ∧ node ≠ 0))]

theorem unlink_record : (zone.unlink bucket id).record = zone.record := by
  unfold Tables.unlink
  dsimp only
  split_ifs
  all_goals rfl

theorem unlink_entryMap : (zone.unlink bucket id).entryMap = zone.entryMap := by
  unfold Tables.unlink
  dsimp only
  split_ifs
  all_goals rfl

theorem unlink_bucket : (zone.unlink bucket id).bucket other =
    if other = bucket then
      { head := if (zone.entry id).prev = 0 then (zone.entry id).next else (zone.bucket bucket).head,
        tail := if (zone.entry id).next = 0 then (zone.entry id).prev else (zone.bucket bucket).tail,
        len := (zone.bucket bucket).len - 1 }
    else zone.bucket other := by
  have setEntry_bucket : ∀ (tables : Tables) node entry,
      (tables.setEntry node entry).bucket = tables.bucket := fun _ _ _ => rfl
  unfold Tables.unlink
  dsimp only
  rw [setBucket_bucket]
  by_cases same : other = bucket
  · rw [if_pos same, if_pos same]
    split_ifs with first last last
    all_goals simp only [setEntry_bucket, setBucket_bucket, if_pos]
  · rw [if_neg same, if_neg same]
    split_ifs with first last last
    all_goals simp only [setEntry_bucket, setBucket_bucket, if_neg same]

theorem unlink_entry (prevApart : (zone.entry id).prev ≠ id) (nextApart : (zone.entry id).next ≠ id) :
    (zone.unlink bucket id).entry node =
      if node = id then { zone.entry id with prev := 0, next := 0 }
      else
        { zone.entry node with
          next := if node = (zone.entry id).prev ∧ node ≠ 0 then (zone.entry id).next
            else (zone.entry node).next,
          prev := if node = (zone.entry id).next ∧ node ≠ 0 then (zone.entry id).prev
            else (zone.entry node).prev } := by
  have setBucket_entry : ∀ (tables : Tables) which value,
      (tables.setBucket which value).entry = tables.entry := fun _ _ _ => rfl
  unfold Tables.unlink
  dsimp only
  rw [setBucket_entry, setEntry_entry]
  by_cases same : node = id
  · rw [if_pos same, if_pos same]
    split_ifs with first last last
    all_goals simp [setBucket_entry, setEntry_entry, prevApart.symm, nextApart.symm]
  rw [if_neg same, if_neg same]
  by_cases first : (zone.entry id).prev = 0
  · rw [if_pos first, first]
    have notPrev : ¬ (node = 0 ∧ node ≠ 0) := fun both => both.2 both.1
    rw [if_neg notPrev]
    by_cases last : (zone.entry id).next = 0
    · rw [if_pos last, last, if_neg notPrev]
      rfl
    rw [if_neg last]
    show (Tables.setEntry _ _ _).entry node = _
    rw [setEntry_entry]
    by_cases after : node = (zone.entry id).next
    · have nonzero : node ≠ 0 := fun wrong => last (after.symm.trans wrong)
      rw [if_pos after, if_pos ⟨after, nonzero⟩, after]
      rfl
    · rw [if_neg after, if_neg (fun both => after both.1 :
        ¬ (node = (zone.entry id).next ∧ node ≠ 0))]
      rfl
  rw [if_neg first]
  by_cases last : (zone.entry id).next = 0
  · rw [if_pos last, last]
    have notNext : ¬ (node = 0 ∧ node ≠ 0) := fun both => both.2 both.1
    rw [if_neg notNext]
    show (zone.setEntry _ _).entry node = _
    rw [setEntry_entry]
    by_cases before : node = (zone.entry id).prev
    · have nonzero : node ≠ 0 := fun wrong => first (before.symm.trans wrong)
      rw [if_pos before, if_pos ⟨before, nonzero⟩, before]
    · rw [if_neg before, if_neg (fun both => before both.1 :
        ¬ (node = (zone.entry id).prev ∧ node ≠ 0))]
  rw [if_neg last, setEntry_entry]
  have prevHere : node = (zone.entry id).prev ->
      (node = (zone.entry id).prev ∧ node ≠ 0) :=
    fun before => ⟨before, fun wrong => first (before.symm.trans wrong)⟩
  have nextHere : node = (zone.entry id).next ->
      (node = (zone.entry id).next ∧ node ≠ 0) :=
    fun after => ⟨after, fun wrong => last (after.symm.trans wrong)⟩
  have chosen : (zone.setEntry (zone.entry id).prev
      { zone.entry (zone.entry id).prev with next := (zone.entry id).next }).entry node =
      { zone.entry node with
        next := if node = (zone.entry id).prev ∧ node ≠ 0 then (zone.entry id).next
          else (zone.entry node).next } := by
    rw [setEntry_entry]
    by_cases before : node = (zone.entry id).prev
    · rw [if_pos before, if_pos (prevHere before), before]
    · rw [if_neg before, if_neg (fun both => before both.1 :
        ¬ (node = (zone.entry id).prev ∧ node ≠ 0))]
  by_cases after : node = (zone.entry id).next
  · rw [if_pos after, if_pos (nextHere after)]
    rw [after] at chosen ⊢
    rw [chosen]
  · rw [if_neg after, if_neg (fun both => after both.1 :
      ¬ (node = (zone.entry id).next ∧ node ≠ 0)), chosen]

end Fields

/-! ## Families of lists -/

section Families

variable {queue : Nat -> List Nat} {bucket other id node : Nat}

theorem mem_extended : node ∈ Function.update queue bucket (queue bucket ++ [id]) other <->
    node ∈ queue other ∨ (other = bucket ∧ node = id) := by
  by_cases same : other = bucket
  · subst same
    simp
  · rw [update_of_ne same]
    simp [same]

theorem mem_pushed : node ∈ Function.update queue bucket (id :: queue bucket) other <->
    node ∈ queue other ∨ (other = bucket ∧ node = id) := by
  by_cases same : other = bucket
  · subst same
    simp [or_comm]
  · rw [update_of_ne same]
    simp [same]

theorem mem_erased (nodup : (queue bucket).Nodup)
    (only : ∀ other, id ∈ queue other -> other = bucket) :
    node ∈ Function.update queue bucket ((queue bucket).erase id) other <->
      node ∈ queue other ∧ node ≠ id := by
  by_cases same : other = bucket
  · subst same
    rw [update_self, nodup.mem_erase_iff, and_comm]
  rw [update_of_ne same]
  constructor
  · intro listed
    exact ⟨listed, fun wrong => same (only other (wrong ▸ listed))⟩
  · exact And.left

theorem nodup_updated {entries : List Nat} (nodup : ∀ other, (queue other).Nodup)
    (own : entries.Nodup) (other : Nat) : (Function.update queue bucket entries other).Nodup :=
  (Function.forall_update_iff queue (fun _ list => list.Nodup)).mpr ⟨own, fun other _ => nodup other⟩
    other

theorem apart_extended {after : Nat -> List Nat} (absent : ∀ {other node},
      node ∈ queue other -> node ≠ id)
    (apart : ∀ first second node, node ∈ queue first -> node ∈ queue second -> first = second)
    (mem : ∀ {other node}, node ∈ after other <->
      node ∈ queue other ∨ (other = bucket ∧ node = id)) {first second : Nat}
    (inFirst : node ∈ after first) (inSecond : node ∈ after second) : first = second := by
  rcases mem.mp inFirst with old | ⟨here, same⟩
  · rcases mem.mp inSecond with also | ⟨_, wrong⟩
    · exact apart first second node old also
    · exact absurd wrong (absent old)
  · rcases mem.mp inSecond with wrong | ⟨also, _⟩
    · exact absurd same (absent wrong)
    · exact here.trans also.symm

theorem erase_middle {front back : List Nat} (nodup : (front ++ id :: back).Nodup) :
    (front ++ id :: back).erase id = front ++ back := by
  have notFront : id ∉ front := fun wrong =>
    (List.nodup_append.mp nodup).2.2 id wrong id (by simp) rfl
  rw [List.erase_append_right _ notFront, List.erase_cons_head]

theorem some_iff_stored {link : Option Nat} (used : link ≠ some 0) :
    link = some node <-> (node = link.getD 0 ∧ node ≠ 0) := by
  cases link with
  | none =>
    constructor
    · intro wrong
      cases wrong
    · rintro ⟨same, nonzero⟩
      exact absurd same nonzero
  | some value =>
    constructor
    · intro same
      injection same with same
      exact ⟨same.symm, fun wrong => used (by rw [same, wrong])⟩
    · rintro ⟨same, _⟩
      rw [same]
      rfl

theorem none_iff_stored {link : Option Nat} (used : link ≠ some 0) :
    link.getD 0 = 0 <-> link = none := by
  cases link with
  | none => exact ⟨fun _ => rfl, fun _ => rfl⟩
  | some value =>
    constructor
    · intro zero
      exact absurd (congrArg some zero) used
    · intro wrong
      cases wrong

end Families

/-! ## The queues of the buckets -/

/-- Every bucket is a doubly linked list of the entries in its queue, from both
ends, with its length. -/
structure Queued (zone : Tables) (queue : Nat -> List Nat) : Prop where
  forward : ∀ bucket,
    Path (fun id => (zone.entry id).next) (zone.bucket bucket).head (queue bucket) 0
  backward : ∀ bucket,
    Path (fun id => (zone.entry id).prev) (zone.bucket bucket).tail (queue bucket).reverse 0
  len : ∀ bucket, (zone.bucket bucket).len = (queue bucket).length
  nodup : ∀ bucket, (queue bucket).Nodup
  nonzero : ∀ bucket, 0 ∉ queue bucket
  apart : ∀ bucket other id, id ∈ queue bucket -> id ∈ queue other -> bucket = other

namespace Queued

variable {zone later : Tables} {queue : Nat -> List Nat} {bucket id : Nat}

theorem frame (queued : Queued zone queue) (buckets : later.bucket = zone.bucket)
    (next : ∀ id, (later.entry id).next = (zone.entry id).next)
    (prev : ∀ id, (later.entry id).prev = (zone.entry id).prev) : Queued later queue where
  forward := by
    intro bucket
    rw [buckets]
    exact (queued.forward bucket).frame (fun id _ => next id)
  backward := by
    intro bucket
    rw [buckets]
    exact (queued.backward bucket).frame (fun id _ => prev id)
  len := by
    intro bucket
    rw [buckets]
    exact queued.len bucket
  nodup := queued.nodup
  nonzero := queued.nonzero
  apart := queued.apart

theorem tail_eq (queued : Queued zone queue) :
    (zone.bucket bucket).tail = (queue bucket).getLast?.getD 0 := by
  rw [(queued.backward bucket).start_eq, List.head?_reverse]

theorem head_eq (queued : Queued zone queue) :
    (zone.bucket bucket).head = (queue bucket).head?.getD 0 :=
  (queued.forward bucket).start_eq

theorem linkTail (queued : Queued zone queue) (nonzero : id ≠ 0)
    (fresh : ∀ other, id ∉ queue other) :
    Queued (zone.linkTail bucket id) (Function.update queue bucket (queue bucket ++ [id])) := by
  have zeroLast : (queue bucket).getLast? ≠ some 0 := fun wrong =>
    queued.nonzero bucket (List.mem_of_getLast? wrong)
  have lastOf : ∀ node, (queue bucket).getLast? = some node <->
      (node = (zone.bucket bucket).tail ∧ node ≠ 0) := by
    intro node
    rw [queued.tail_eq]
    exact some_iff_stored zeroLast
  have emptyIff : (zone.bucket bucket).tail = 0 <-> queue bucket = [] := by
    rw [queued.tail_eq, none_iff_stored zeroLast, List.getLast?_eq_none_iff]
  have tailApart : (zone.bucket bucket).tail ≠ id := fun wrong =>
    fresh bucket (List.mem_of_getLast? ((lastOf id).mpr ⟨wrong.symm, nonzero⟩))
  have nextOther : ∀ node, node ≠ id -> (queue bucket).getLast? ≠ some node ->
      ((zone.linkTail bucket id).entry node).next = (zone.entry node).next := by
    intro node other notLast
    rw [linkTail_entry zone tailApart, if_neg other, if_neg (fun both => notLast ((lastOf node).mpr both))]
  have prevOther : ∀ node, node ≠ id ->
      ((zone.linkTail bucket id).entry node).prev = (zone.entry node).prev := by
    intro node other
    rw [linkTail_entry zone tailApart, if_neg other]
    split_ifs
    · rfl
    · rfl
  have own : (zone.linkTail bucket id).entry id =
      { zone.entry id with prev := (zone.bucket bucket).tail, next := 0, bucket := bucket } := by
    rw [linkTail_entry zone tailApart, if_pos rfl]
  have notIn : ∀ {other node}, node ∈ queue other -> node ≠ id :=
    fun listed wrong => fresh _ (wrong ▸ listed)
  constructor
  case forward =>
    intro other
    rw [linkTail_bucket]
    by_cases same : other = bucket
    · subst same
      rw [if_pos rfl, update_self]
      refine (queued.forward other).extend (by simp only [emptyIff, List.isEmpty_iff]) ?_ ?_ ?_
        (queued.nodup other)
      · show ((zone.linkTail other id).entry id).next = 0
        rw [own]
      · intro last isLast
        show ((zone.linkTail other id).entry last).next = id
        rw [linkTail_entry zone tailApart, if_neg (notIn (List.mem_of_getLast? isLast)),
          if_pos ((lastOf last).mp isLast)]
      · intro node listed notLast
        exact nextOther node (notIn listed) notLast
    · rw [if_neg same, update_of_ne same]
      refine (queued.forward other).frame ?_
      intro node listed
      refine nextOther node (notIn listed) ?_
      intro isLast
      exact same (queued.apart other bucket node listed (List.mem_of_getLast? isLast))
  case backward =>
    intro other
    rw [linkTail_bucket]
    by_cases same : other = bucket
    · subst same
      rw [if_pos rfl, update_self, List.reverse_append]
      refine ⟨rfl, ?_⟩
      show Path _ ((zone.linkTail other id).entry id).prev (queue other).reverse 0
      rw [own]
      refine (queued.backward other).frame ?_
      intro node listed
      exact prevOther node (notIn (List.mem_reverse.mp listed))
    · rw [if_neg same, update_of_ne same]
      refine (queued.backward other).frame ?_
      intro node listed
      exact prevOther node (notIn (List.mem_reverse.mp listed))
  case len =>
    intro other
    rw [linkTail_bucket]
    by_cases same : other = bucket
    · subst same
      rw [if_pos rfl, update_self, List.length_append, queued.len]
      rfl
    · rw [if_neg same, update_of_ne same]
      exact queued.len other
  case nodup =>
    refine nodup_updated queued.nodup (List.nodup_append.mpr ⟨queued.nodup bucket, by simp, ?_⟩)
    intro node listed own inSingle wrong
    exact notIn listed (wrong.trans (List.mem_singleton.mp inSingle))
  case nonzero =>
    intro other
    by_cases same : other = bucket
    · subst same
      rw [update_self]
      intro listed
      rcases List.mem_append.mp listed with old | new
      · exact queued.nonzero other old
      · exact nonzero (List.mem_singleton.mp new).symm
    · rw [update_of_ne same]
      exact queued.nonzero other
  case apart =>
    exact fun first second node => apart_extended notIn queued.apart mem_extended

theorem unlink (queued : Queued zone queue) (listed : id ∈ queue bucket) :
    Queued (zone.unlink bucket id) (Function.update queue bucket ((queue bucket).erase id)) := by
  have nonzero : id ≠ 0 := fun wrong => queued.nonzero bucket (wrong ▸ listed)
  rcases List.append_of_mem listed with ⟨front, back, shape⟩
  have once := queued.nodup bucket
  have forward := queued.forward bucket
  have backward := queued.backward bucket
  rw [shape] at once forward
  rw [shape, List.reverse_append, List.reverse_cons, List.append_assoc] at backward
  have erased := erase_middle once
  have rest : (front ++ back).Nodup := once.sublist (by simp)
  have nextIs : (zone.entry id).next = back.head?.getD 0 := forward.split_at.2.start_eq
  have prevIs : (zone.entry id).prev = front.getLast?.getD 0 := by
    rw [<- List.head?_reverse]
    exact backward.split_at.2.start_eq
  have notFront : id ∉ front := fun wrong =>
    (List.nodup_append.mp once).2.2 id wrong id (by simp) rfl
  have notBack : id ∉ back := (List.nodup_cons.mp (List.nodup_append.mp once).2.1).1
  have zeroFront : front.getLast? ≠ some 0 := fun wrong =>
    queued.nonzero bucket (by rw [shape]; simp [List.mem_of_getLast? wrong])
  have zeroBack : back.head? ≠ some 0 := fun wrong =>
    queued.nonzero bucket (by rw [shape]; simp [List.mem_of_head? wrong])
  have prevOf : ∀ node, front.getLast? = some node <->
      (node = (zone.entry id).prev ∧ node ≠ 0) := by
    intro node
    rw [prevIs]
    exact some_iff_stored zeroFront
  have nextOf : ∀ node, back.head? = some node <->
      (node = (zone.entry id).next ∧ node ≠ 0) := by
    intro node
    rw [nextIs]
    exact some_iff_stored zeroBack
  have prevApart : (zone.entry id).prev ≠ id := fun wrong =>
    notFront (List.mem_of_getLast? ((prevOf id).mpr ⟨wrong.symm, nonzero⟩))
  have nextApart : (zone.entry id).next ≠ id := fun wrong =>
    notBack (List.mem_of_head? ((nextOf id).mpr ⟨wrong.symm, nonzero⟩))
  have nextKept : ∀ node, node ≠ id -> front.getLast? ≠ some node ->
      ((zone.unlink bucket id).entry node).next = (zone.entry node).next := by
    intro node other notLast
    rw [unlink_entry zone prevApart nextApart, if_neg other]
    dsimp only
    rw [if_neg (fun both => notLast ((prevOf node).mpr both))]
  have prevKept : ∀ node, node ≠ id -> back.head? ≠ some node ->
      ((zone.unlink bucket id).entry node).prev = (zone.entry node).prev := by
    intro node other notFirst
    rw [unlink_entry zone prevApart nextApart, if_neg other]
    dsimp only
    rw [if_neg (fun both => notFirst ((nextOf node).mpr both))]
  have only : ∀ other, id ∈ queue other -> other = bucket :=
    fun other inOther => queued.apart other bucket id inOther listed
  have frontIn : ∀ node ∈ front, node ∈ queue bucket := by
    intro node inFront
    rw [shape]
    exact List.mem_append_left _ inFront
  have backIn : ∀ node ∈ back, node ∈ queue bucket := by
    intro node inBack
    rw [shape]
    exact List.mem_append_right _ (List.mem_cons_of_mem _ inBack)
  constructor
  case forward =>
    intro other
    rw [unlink_bucket]
    by_cases same : other = bucket
    · subst same
      rw [if_pos rfl, update_self, shape, erased]
      refine forward.bypass ?_ ?_ ?_ rest
      · simp only [prevIs, none_iff_stored zeroFront, List.getLast?_eq_none_iff, List.isEmpty_iff]
      · intro last isLast
        show ((zone.unlink other id).entry last).next = (zone.entry id).next
        have lastOther : last ≠ id := fun wrong => notFront (wrong ▸ List.mem_of_getLast? isLast)
        rw [unlink_entry zone prevApart nextApart, if_neg lastOther]
        dsimp only
        rw [if_pos ((prevOf last).mp isLast)]
      intro node inRest notLast
      refine nextKept node ?_ notLast
      intro wrong
      rcases List.mem_append.mp inRest with inFront | inBack
      · exact notFront (wrong ▸ inFront)
      · exact notBack (wrong ▸ inBack)
    · rw [if_neg same, update_of_ne same]
      refine (queued.forward other).frame ?_
      intro node inOther
      refine nextKept node (fun wrong => same (only other (wrong ▸ inOther))) ?_
      intro isLast
      exact same (queued.apart other bucket node inOther (frontIn node (List.mem_of_getLast? isLast)))
  case backward =>
    intro other
    rw [unlink_bucket]
    by_cases same : other = bucket
    · subst same
      rw [if_pos rfl, update_self, shape, erased, List.reverse_append]
      refine backward.bypass ?_ ?_ ?_ ?_
      · simp only [nextIs, none_iff_stored zeroBack, List.head?_eq_none_iff, List.isEmpty_iff,
          List.reverse_eq_nil_iff]
      · intro first isFirst
        rw [List.getLast?_reverse] at isFirst
        show ((zone.unlink other id).entry first).prev = (zone.entry id).prev
        have firstOther : first ≠ id := fun wrong => notBack (wrong ▸ List.mem_of_head? isFirst)
        rw [unlink_entry zone prevApart nextApart, if_neg firstOther]
        dsimp only
        rw [if_pos ((nextOf first).mp isFirst)]
      · intro node inRest notFirst
        rw [List.getLast?_reverse] at notFirst
        refine prevKept node ?_ notFirst
        intro wrong
        rcases List.mem_append.mp inRest with inBack | inFront
        · exact notBack (wrong ▸ List.mem_reverse.mp inBack)
        · exact notFront (wrong ▸ List.mem_reverse.mp inFront)
      · show (back.reverse ++ front.reverse).Nodup
        rw [<- List.reverse_append]
        exact List.nodup_reverse.mpr rest
    · rw [if_neg same, update_of_ne same]
      refine (queued.backward other).frame ?_
      intro node inReverse
      have inOther := List.mem_reverse.mp inReverse
      refine prevKept node (fun wrong => same (only other (wrong ▸ inOther))) ?_
      intro isFirst
      exact same (queued.apart other bucket node inOther (backIn node (List.mem_of_head? isFirst)))
  case len =>
    intro other
    rw [unlink_bucket]
    by_cases same : other = bucket
    · subst same
      rw [if_pos rfl, update_self, List.length_erase_of_mem listed, queued.len]
    · rw [if_neg same, update_of_ne same]
      exact queued.len other
  case nodup =>
    exact nodup_updated queued.nodup ((queued.nodup bucket).erase id)
  case nonzero =>
    intro other inOther
    exact queued.nonzero other ((mem_erased (queued.nodup bucket) only).mp inOther).1
  case apart =>
    intro first second node inFirst inSecond
    exact queued.apart first second node ((mem_erased (queued.nodup bucket) only).mp inFirst).1
      ((mem_erased (queued.nodup bucket) only).mp inSecond).1

end Queued

end Zone
end Carrick
