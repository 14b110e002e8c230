import Mathlib.Data.List.Perm.Subperm
import Carrick.Zone.Chains

namespace Carrick
namespace Zone

open Foundation

/-!
# The tables hold together

The queues of the buckets and the chains of the records hold the same entries: an
allocated entry is on the queue that its bucket field names and on the chain of the
record that it names, and a free one is on neither.  Its bucket is the one that its
address hashes to, so whoever holds that bucket's lock sees every waiter of the
address.
-/

def ZoneEntry.bare (entry : ZoneEntry) : ZoneEntry :=
  { entry with next := 0, prev := 0, sibling := 0 }

theorem ZoneEntry.bare_reads {Value : Type} {first second : ZoneEntry}
    (reading : ZoneEntry -> Value) (free : ∀ entry : ZoneEntry, reading entry.bare = reading entry)
    (same : first.bare = second.bare) : reading first = reading second := by
  rw [<- free first, <- free second, same]

section Bare

variable (zone : Tables) {bucket record id node : Nat}

theorem setEntry_reads {Value : Type} (reading : ZoneEntry -> Value) {value : ZoneEntry}
    (same : reading value = reading (zone.entry id)) :
    reading ((zone.setEntry id value).entry node) = reading (zone.entry node) := by
  rw [setEntry_entry]
  by_cases here : node = id
  · rw [if_pos here, here, same]
  · rw [if_neg here]

theorem unlink_reads {Value : Type} (reading : ZoneEntry -> Value)
    (free : ∀ (entry : ZoneEntry) next prev,
      reading { entry with next := next, prev := prev } = reading entry) :
    reading ((zone.unlink bucket id).entry node) = reading (zone.entry node) := by
  unfold Tables.unlink
  dsimp only
  refine (setEntry_reads _ reading (free _ 0 0)).trans ?_
  by_cases last : (zone.entry id).next = 0
  · rw [if_pos last]
    by_cases first : (zone.entry id).prev = 0
    · rw [if_pos first]
      rfl
    · rw [if_neg first]
      exact setEntry_reads _ reading (free _ _ _)
  rw [if_neg last]
  refine (setEntry_reads _ reading (free _ _ _)).trans ?_
  by_cases first : (zone.entry id).prev = 0
  · rw [if_pos first]
    rfl
  · rw [if_neg first]
    exact setEntry_reads _ reading (free _ _ _)

theorem unlink_bare : ((zone.unlink bucket id).entry node).bare = (zone.entry node).bare :=
  unlink_reads zone ZoneEntry.bare (fun _ _ _ => rfl)

theorem linkTail_sibling :
    ((zone.linkTail bucket id).entry node).sibling = (zone.entry node).sibling := by
  unfold Tables.linkTail
  dsimp only
  by_cases empty : (zone.bucket bucket).tail = 0
  · rw [if_pos empty]
    exact setEntry_reads _ ZoneEntry.sibling (by rfl)
  · rw [if_neg empty]
    refine (setEntry_reads _ ZoneEntry.sibling (by rfl)).trans ?_
    exact setEntry_reads _ ZoneEntry.sibling (by rfl)

theorem linkTail_bare : ((zone.linkTail bucket id).entry node).bare =
    if node = id then { zone.entry id with bucket := bucket }.bare else (zone.entry node).bare := by
  unfold Tables.linkTail
  dsimp only
  have placed : ((zone.setEntry id
      { zone.entry id with prev := (zone.bucket bucket).tail, next := 0, bucket := bucket }).entry
        node).bare =
      if node = id then { zone.entry id with bucket := bucket }.bare
      else (zone.entry node).bare := by
    rw [setEntry_entry]
    by_cases here : node = id
    · rw [if_pos here, if_pos here]
      rfl
    · rw [if_neg here, if_neg here]
  by_cases empty : (zone.bucket bucket).tail = 0
  · rw [if_pos empty]
    exact placed
  · rw [if_neg empty]
    exact (setEntry_reads _ ZoneEntry.bare (by rfl)).trans placed

theorem dropEntry_reads {Value : Type} (reading : ZoneEntry -> Value)
    (free : ∀ (entry : ZoneEntry) sibling record,
      reading { entry with sibling := sibling, record := record } = reading entry) :
    reading ((zone.dropEntry record id).entry node) = reading (zone.entry node) := by
  unfold Tables.dropEntry
  dsimp only
  refine (setEntry_reads _ reading (free _ _ _)).trans ?_
  rcases dropLink_cases zone (zoneEntries + 1) with same | ⟨found, cut⟩
  · rw [same]
  · rw [cut, cutLink_entry]
    split_ifs
    · exact free _ _ _
    · rfl

theorem dropEntry_bare : ((zone.dropEntry record id).entry node).bare =
    if node = id then { zone.entry id with record := 0 }.bare else (zone.entry node).bare := by
  unfold Tables.dropEntry
  dsimp only
  have kept : ∀ other, ((zone.dropLink record id (zoneEntries + 1) 0).entry other).bare =
      (zone.entry other).bare := by
    intro other
    rcases dropLink_cases zone (zoneEntries + 1) with same | ⟨found, cut⟩
    · rw [same]
    · rw [cut, cutLink_entry]
      split_ifs
      · rfl
      · rfl
  show ((Tables.setEntry _ id _).entry node).bare = _
  rw [setEntry_entry]
  by_cases here : node = id
  · rw [if_pos here, if_pos here]
    have bare := kept id
    show { (Tables.entry _ id).bare with record := 0 } = _
    rw [bare]
    rfl
  · rw [if_neg here, if_neg here]
    exact kept node

theorem dropEntry_record_reads {Value : Type} (reading : ZoneRecord -> Value) {other : Nat}
    (free : ∀ (value : ZoneRecord) first count,
      reading { value with firstEntry := first, entryCount := count } = reading value) :
    reading ((zone.dropEntry record id).record other) = reading (zone.record other) := by
  unfold Tables.dropEntry
  dsimp only
  show reading ((zone.dropLink record id (zoneEntries + 1) 0).record other) = _
  rcases dropLink_cases zone (zoneEntries + 1) with same | ⟨found, cut⟩
  · rw [same]
  rw [cut, cutLink_record]
  by_cases here : other = record
  · rw [if_pos here, here]
    exact free _ _ _
  · rw [if_neg here]

theorem dropEntry_record_other {other : Nat} (apart : other ≠ record) :
    (zone.dropEntry record id).record other = zone.record other := by
  unfold Tables.dropEntry
  dsimp only
  show (zone.dropLink record id (zoneEntries + 1) 0).record other = _
  rcases dropLink_cases zone (zoneEntries + 1) with same | ⟨found, cut⟩
  · rw [same]
  · rw [cut, cutLink_record, if_neg apart]

theorem dropEntry_entryMap : (zone.dropEntry record id).entryMap node =
    if node = id then false else zone.entryMap node := by
  unfold Tables.dropEntry
  dsimp only
  rw [setMap_entryMap]
  have kept : (zone.dropLink record id (zoneEntries + 1) 0).entryMap = zone.entryMap := by
    rcases dropLink_cases zone (zoneEntries + 1) with same | ⟨found, cut⟩
    · rw [same]
    · rw [cut, cutLink_entryMap]
  show (if node = id then false else (zone.dropLink record id (zoneEntries + 1) 0).entryMap node) = _
  rw [kept]

theorem dropEntry_bucket : (zone.dropEntry record id).bucket = zone.bucket := by
  unfold Tables.dropEntry
  dsimp only
  show (zone.dropLink record id (zoneEntries + 1) 0).bucket = zone.bucket
  rcases dropLink_cases zone (zoneEntries + 1) with same | ⟨found, cut⟩
  · rw [same]
  · rw [cut, cutLink_bucket]

end Bare

/-- The queues and the chains hold the allocated entries: each is in the queue
of its bucket and in the chain of its record. -/
structure Formed (zone : Tables) (queue chain : Nat -> List Nat) : Prop where
  queued : Queued zone queue
  chained : Chained zone chain
  listed : ∀ bucket id,
    id ∈ queue bucket <-> (zone.entryMap id = true ∧ (zone.entry id).bucket = bucket)
  held : ∀ record id,
    id ∈ chain record <-> (zone.entryMap id = true ∧ (zone.entry id).record = record)
  used : ∀ id, zone.entryMap id = true ->
    id ≠ 0 ∧ id < zoneEntries ∧ (zone.entry id).record ≠ 0
  home : ∀ id, zone.entryMap id = true ->
    (zone.entry id).bucket = bucketOf (zone.entry id).mm (zone.entry id).uaddr

namespace Formed

variable {zone later : Tables} {queue chain : Nat -> List Nat} {bucket record id : Nat}

section Formed

variable (formed : Formed zone queue chain)

include formed

theorem length_le {entries : List Nat} (nodup : entries.Nodup)
    (allocated : ∀ id ∈ entries, zone.entryMap id = true) :
    entries.length <= zoneEntries := by
  have within : entries ⊆ List.range zoneEntries := by
    intro id inEntries
    exact List.mem_range.mpr (formed.used id (allocated id inEntries)).2.1
  have bound := (List.subperm_of_subset nodup within).length_le
  rwa [List.length_range] at bound

theorem queue_length_le (bucket : Nat) :
    (queue bucket).length <= zoneEntries :=
  formed.length_le (formed.queued.nodup bucket)
    (fun id inQueue => ((formed.listed bucket id).mp inQueue).1)

theorem chain_length_le (record : Nat) :
    (chain record).length <= zoneEntries :=
  formed.length_le (formed.chained.nodup record)
    (fun id inChain => ((formed.held record id).mp inChain).1)

theorem setRecord {value : ZoneRecord} (first : value.firstEntry = (zone.record record).firstEntry)
    (count : value.entryCount = (zone.record record).entryCount) :
    Formed (zone.setRecord record value) queue chain where
  queued := formed.queued.frame rfl (fun _ => rfl) (fun _ => rfl)
  chained := by
    refine formed.chained.frame (fun _ _ _ => rfl) ?_ ?_
    · intro other
      rw [setRecord_record]
      split_ifs with same
      · rw [first, same]
      · rfl
    intro other
    rw [setRecord_record]
    split_ifs with same
    · rw [count, same]
    · rfl
  listed := formed.listed
  held := formed.held
  used := formed.used
  home := formed.home

/-- The tables hold together when one entry changed and its lists with it. -/
theorem change {queueAfter chainAfter : Nat -> List Nat} (id : Nat)
    (queued : Queued later queueAfter) (chained : Chained later chainAfter)
    (map : ∀ node, node ≠ id -> later.entryMap node = zone.entryMap node)
    (bare : ∀ node, node ≠ id -> (later.entry node).bare = (zone.entry node).bare)
    (inQueue : ∀ bucket node, node ≠ id -> (node ∈ queueAfter bucket <-> node ∈ queue bucket))
    (inChain : ∀ record node, node ≠ id -> (node ∈ chainAfter record <-> node ∈ chain record))
    (ownQueue : ∀ bucket, id ∈ queueAfter bucket <-> (later.entryMap id = true ∧ (later.entry id).bucket = bucket))
    (ownChain : ∀ record, id ∈ chainAfter record <-> (later.entryMap id = true ∧ (later.entry id).record = record))
    (ownUsed : later.entryMap id = true -> id ≠ 0 ∧ id < zoneEntries ∧ (later.entry id).record ≠ 0)
    (ownHome : later.entryMap id = true -> (later.entry id).bucket = bucketOf (later.entry id).mm (later.entry id).uaddr) :
    Formed later queueAfter chainAfter := by
  have sameBucket : ∀ node, node ≠ id ->
      (later.entry node).bucket = (zone.entry node).bucket :=
    fun node apart => ZoneEntry.bare_reads ZoneEntry.bucket (fun _ => rfl) (bare node apart)
  have sameRecord : ∀ node, node ≠ id ->
      (later.entry node).record = (zone.entry node).record :=
    fun node apart => ZoneEntry.bare_reads ZoneEntry.record (fun _ => rfl) (bare node apart)
  constructor
  case queued => exact queued
  case chained => exact chained
  case listed =>
    intro bucket node
    by_cases same : node = id
    · rw [same]
      exact ownQueue bucket
    · rw [inQueue bucket node same, formed.listed, map node same, sameBucket node same]
  case held =>
    intro record node
    by_cases same : node = id
    · rw [same]
      exact ownChain record
    · rw [inChain record node same, formed.held, map node same, sameRecord node same]
  case used =>
    intro node allocated
    by_cases same : node = id
    · rw [same] at allocated ⊢
      exact ownUsed allocated
    · rw [map node same] at allocated
      rw [sameRecord node same]
      exact formed.used node allocated
  case home =>
    intro node allocated
    by_cases same : node = id
    · rw [same] at allocated ⊢
      exact ownHome allocated
    rw [map node same] at allocated
    have sameMm : (later.entry node).mm = (zone.entry node).mm :=
      ZoneEntry.bare_reads ZoneEntry.mm (fun _ => rfl) (bare node same)
    have sameUaddr : (later.entry node).uaddr = (zone.entry node).uaddr :=
      ZoneEntry.bare_reads ZoneEntry.uaddr (fun _ => rfl) (bare node same)
    rw [sameBucket node same, sameMm, sameUaddr]
    exact formed.home node allocated

theorem release (inQueue : id ∈ queue bucket) (inChain : id ∈ chain record) :
    Formed ((zone.unlink bucket id).dropEntry record id)
      (Function.update queue bucket ((queue bucket).erase id))
      (Function.update chain record ((chain record).erase id)) := by
  have onlyQueue : ∀ other, id ∈ queue other -> other = bucket :=
    fun other inOther => formed.queued.apart other bucket id inOther inQueue
  have onlyChain : ∀ other, id ∈ chain other -> other = record :=
    fun other inOther => formed.chained.apart other record id inOther inChain
  have freed : ((zone.unlink bucket id).dropEntry record id).entryMap id ≠ true := by
    rw [dropEntry_entryMap, if_pos rfl]
    exact Bool.false_ne_true
  have unlinked : Chained (zone.unlink bucket id) chain := by
    refine formed.chained.frame ?_ ?_ ?_
    · intro _ node _
      exact unlink_reads zone ZoneEntry.sibling (fun _ _ _ => rfl)
    · intro other
      rw [unlink_record]
    · intro other
      rw [unlink_record]
  have queued : Queued ((zone.unlink bucket id).dropEntry record id)
      (Function.update queue bucket ((queue bucket).erase id)) := by
    refine (formed.queued.unlink inQueue).frame (dropEntry_bucket _) ?_ ?_
    · intro node
      exact dropEntry_reads _ ZoneEntry.next (fun _ _ _ => rfl)
    · intro node
      exact dropEntry_reads _ ZoneEntry.prev (fun _ _ _ => rfl)
  refine formed.change id queued (unlinked.dropEntry inChain (formed.chain_length_le record))
    ?_ ?_ ?_ ?_ ?_ ?_ (fun wrong => absurd wrong freed) (fun wrong => absurd wrong freed)
  · intro node apart
    rw [dropEntry_entryMap, if_neg apart, unlink_entryMap]
  · intro node apart
    rw [dropEntry_bare, if_neg apart, unlink_bare]
  · intro other node apart
    rw [mem_erased (formed.queued.nodup bucket) onlyQueue]
    exact ⟨And.left, fun listed => ⟨listed, apart⟩⟩
  · intro other node apart
    rw [mem_erased (formed.chained.nodup record) onlyChain]
    exact ⟨And.left, fun listed => ⟨listed, apart⟩⟩
  · intro other
    rw [mem_erased (formed.queued.nodup bucket) onlyQueue]
    exact ⟨fun both => absurd rfl both.2, fun both => absurd both.1 freed⟩
  · intro other
    rw [mem_erased (formed.chained.nodup record) onlyChain]
    exact ⟨fun both => absurd rfl both.2, fun both => absurd both.1 freed⟩

end Formed

theorem allocEntry_some (found : zone.allocEntry = some id) :
    id ≠ 0 ∧ id < zoneEntries ∧ zone.entryMap id = false := by
  have inRange := List.mem_of_find?_eq_some found
  have free := List.find?_some found
  simp only [ne_eq, Bool.and_eq_true, decide_eq_true_eq, Bool.not_eq_true'] at free
  exact ⟨free.1, List.mem_range.mp inRange, free.2⟩

/-- A new entry is the last of its queue and the first of its chain. -/
theorem enqueue {seq mm uaddr bitset index : Nat} (formed : Formed zone queue chain)
    (owned : record ≠ 0) (found : zone.allocEntry = some id) :
    Formed ((zone.chainEntry id record seq mm uaddr bitset index).linkTail (bucketOf mm uaddr) id)
      (Function.update queue (bucketOf mm uaddr) (queue (bucketOf mm uaddr) ++ [id]))
      (Function.update chain record (id :: chain record)) := by
  rcases allocEntry_some found with ⟨nonzero, small, free⟩
  have notQueued : ∀ other, id ∉ queue other := by
    intro other inOther
    have allocated := ((formed.listed other id).mp inOther).1
    rw [free] at allocated
    cases allocated
  have notChained : ∀ other, id ∉ chain other := by
    intro other inOther
    have allocated := ((formed.held other id).mp inOther).1
    rw [free] at allocated
    cases allocated
  have entryOf : ∀ node,
      (zone.chainEntry id record seq mm uaddr bitset index).entry node =
        if node = id then
          { zone.entry id with
            record := record, seq := seq, mm := mm, uaddr := uaddr, bitset := bitset,
            index := index, sibling := (zone.record record).firstEntry }
        else zone.entry node := fun node => setEntry_entry _ _
  have queuedBefore : Queued (zone.chainEntry id record seq mm uaddr bitset index) queue := by
    refine formed.queued.frame rfl ?_ ?_
    · intro node
      exact setEntry_reads _ ZoneEntry.next (by rfl)
    · intro node
      exact setEntry_reads _ ZoneEntry.prev (by rfl)
  have bareOf : ∀ node, node ≠ id ->
      (((zone.chainEntry id record seq mm uaddr bitset index).linkTail (bucketOf mm uaddr)
        id).entry node).bare = (zone.entry node).bare := by
    intro node other
    rw [linkTail_bare, if_neg other, entryOf, if_neg other]
  have bareSelf : (((zone.chainEntry id record seq mm uaddr bitset index).linkTail
      (bucketOf mm uaddr) id).entry id).bare =
      { next := 0, prev := 0, record := record, sibling := 0, bucket := bucketOf mm uaddr,
        seq := seq, bitset := bitset, index := index, mm := mm, uaddr := uaddr } := by
    rw [linkTail_bare, if_pos rfl, entryOf, if_pos rfl]
    rfl
  have mapSelf : ((zone.chainEntry id record seq mm uaddr bitset index).linkTail
      (bucketOf mm uaddr) id).entryMap id = true := by
    rw [linkTail_entryMap]
    show (zone.setMap id true).entryMap id = true
    rw [setMap_entryMap, if_pos rfl]
  have recordSelf := congrArg ZoneEntry.record bareSelf
  have bucketSelf := congrArg ZoneEntry.bucket bareSelf
  have mmSelf := congrArg ZoneEntry.mm bareSelf
  have uaddrSelf := congrArg ZoneEntry.uaddr bareSelf
  have chainedAfter : Chained ((zone.chainEntry id record seq mm uaddr bitset index).linkTail
      (bucketOf mm uaddr) id) (Function.update chain record (id :: chain record)) := by
    have pushed : Chained (zone.chainEntry id record seq mm uaddr bitset index)
        (Function.update chain record (id :: chain record)) :=
      formed.chained.chainEntry nonzero notChained
    refine pushed.frame ?_ ?_ ?_
    · intro _ node _
      exact linkTail_sibling _
    · intro other
      rw [linkTail_record]
    · intro other
      rw [linkTail_record]
  refine formed.change id (queuedBefore.linkTail nonzero notQueued) chainedAfter ?_ bareOf
    ?_ ?_ ?_ ?_ ?_ ?_
  · intro node apart
    rw [linkTail_entryMap]
    show (zone.setMap id true).entryMap node = _
    rw [setMap_entryMap, if_neg apart]
  · intro other node apart
    rw [mem_extended]
    exact ⟨fun either => either.resolve_right (fun both => apart both.2), .inl⟩
  · intro other node apart
    rw [mem_pushed]
    exact ⟨fun either => either.resolve_right (fun both => apart both.2), .inl⟩
  · intro other
    rw [mem_extended]
    constructor
    · intro either
      have both := either.resolve_left (notQueued other)
      exact ⟨mapSelf, bucketSelf.trans both.1.symm⟩
    · intro both
      exact .inr ⟨both.2.symm.trans bucketSelf, rfl⟩
  · intro other
    rw [mem_pushed]
    constructor
    · intro either
      have both := either.resolve_left (notChained other)
      exact ⟨mapSelf, recordSelf.trans both.1.symm⟩
    · intro both
      exact .inr ⟨both.2.symm.trans recordSelf, rfl⟩
  · intro _
    exact ⟨nonzero, small, fun wrong => owned (recordSelf.symm.trans wrong)⟩
  · intro _
    rw [show (Tables.entry _ id).mm = mm from mmSelf,
      show (Tables.entry _ id).uaddr = uaddr from uaddrSelf]
    exact bucketSelf

/-- A requeue's move: the entry is the last of its new queue, under its new address. -/
theorem move {target destination : Nat} (formed : Formed zone queue chain)
    (inQueue : id ∈ queue bucket) (hashes : target = bucketOf (zone.entry id).mm destination) :
    Formed (((zone.unlink bucket id).setEntry id
        { (zone.unlink bucket id).entry id with uaddr := destination }).linkTail target id)
      (Function.update (Function.update queue bucket ((queue bucket).erase id)) target
        (Function.update queue bucket ((queue bucket).erase id) target ++ [id])) chain := by
  have allocated := ((formed.listed bucket id).mp inQueue).1
  rcases formed.used id allocated with ⟨nonzero, small, owned⟩
  have only : ∀ other, id ∈ queue other -> other = bucket :=
    fun other inOther => formed.queued.apart other bucket id inOther inQueue
  have erased : ∀ other node,
      node ∈ Function.update queue bucket ((queue bucket).erase id) other <->
        node ∈ queue other ∧ node ≠ id :=
    fun other node => mem_erased (formed.queued.nodup bucket) only
  have absent : ∀ other, id ∉ Function.update queue bucket ((queue bucket).erase id) other :=
    fun other wrong => ((erased other id).mp wrong).2 rfl
  have renamed : Queued ((zone.unlink bucket id).setEntry id
      { (zone.unlink bucket id).entry id with uaddr := destination })
      (Function.update queue bucket ((queue bucket).erase id)) := by
    refine (formed.queued.unlink inQueue).frame rfl ?_ ?_
    · intro node
      exact setEntry_reads _ ZoneEntry.next (by rfl)
    · intro node
      exact setEntry_reads _ ZoneEntry.prev (by rfl)
  have chainedAfter : Chained (((zone.unlink bucket id).setEntry id
      { (zone.unlink bucket id).entry id with uaddr := destination }).linkTail target id) chain := by
    refine formed.chained.frame ?_ ?_ ?_
    · intro _ node _
      rw [linkTail_sibling]
      refine (setEntry_reads _ ZoneEntry.sibling (by rfl)).trans ?_
      exact unlink_reads zone ZoneEntry.sibling (fun _ _ _ => rfl)
    · intro other
      rw [linkTail_record]
      show ((zone.unlink bucket id).record other).firstEntry = _
      rw [unlink_record]
    · intro other
      rw [linkTail_record]
      show ((zone.unlink bucket id).record other).entryCount = _
      rw [unlink_record]
  have mapOf : ∀ node, (((zone.unlink bucket id).setEntry id
      { (zone.unlink bucket id).entry id with uaddr := destination }).linkTail target id).entryMap
        node = zone.entryMap node := by
    intro node
    rw [linkTail_entryMap]
    show (zone.unlink bucket id).entryMap node = _
    rw [unlink_entryMap]
  have bareSelf : ((((zone.unlink bucket id).setEntry id
      { (zone.unlink bucket id).entry id with uaddr := destination }).linkTail target id).entry
        id).bare = { (zone.entry id).bare with uaddr := destination, bucket := target } := by
    rw [linkTail_bare, if_pos rfl, setEntry_entry, if_pos rfl, <- unlink_bare zone]
    rfl
  have recordSelf := congrArg ZoneEntry.record bareSelf
  have bucketSelf := congrArg ZoneEntry.bucket bareSelf
  have mmSelf := congrArg ZoneEntry.mm bareSelf
  have uaddrSelf := congrArg ZoneEntry.uaddr bareSelf
  refine formed.change id (renamed.linkTail nonzero absent) chainedAfter (fun node _ => mapOf node)
    ?_ ?_ (fun _ _ _ => Iff.rfl) ?_ ?_ ?_ ?_
  · intro node apart
    rw [linkTail_bare, if_neg apart, setEntry_entry, if_neg apart, unlink_bare]
  · intro other node apart
    rw [mem_extended, erased]
    exact ⟨fun either => (either.resolve_right (fun both => apart both.2)).1,
      fun listed => .inl ⟨listed, apart⟩⟩
  · intro other
    rw [mem_extended, mapOf]
    constructor
    · intro either
      have both := either.resolve_left (absent other)
      exact ⟨allocated, bucketSelf.trans both.1.symm⟩
    · intro both
      exact .inr ⟨both.2.symm.trans bucketSelf, rfl⟩
  · intro other
    rw [formed.held, mapOf]
    refine and_congr_right (fun _ => ?_)
    rw [show (Tables.entry _ id).record = (zone.entry id).record from recordSelf]
  · intro _
    exact ⟨nonzero, small, fun wrong => owned (recordSelf.symm.trans wrong)⟩
  · intro _
    rw [show (Tables.entry _ id).mm = (zone.entry id).mm from mmSelf,
      show (Tables.entry _ id).uaddr = destination from uaddrSelf]
    exact bucketSelf.trans hashes

end Formed

end Zone
end Carrick
