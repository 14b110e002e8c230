import Carrick.Reservation.Pages

namespace Carrick
namespace Reservation

open Foundation
open Command

/-!
# The index of byte sources

The index is a search tree keyed by source name together with the retirement
queue.  Its commands are described by what they do to the entry of one name;
they leave the mapping tree, the incarnation counters and everything a
proposal consists of untouched.
-/

/-- The parts of a root that neither an edit of the tree nor one of the index
changes. -/
structure Frame (before after : Root) : Prop where
  mm : after.mm = before.mm
  generation : after.generation = before.generation
  sequence : after.sequence = before.sequence
  layout : after.layout = before.layout
  pending : after.pending = before.pending
  admitted : after.admitted = before.admitted
  forkPending : after.forkPending = before.forkPending

theorem Frame.refl (root : Root) : Frame root root := ⟨rfl, rfl, rfl, rfl, rfl, rfl, rfl⟩

theorem Frame.trans {first second third : Root} (earlier : Frame first second)
    (later : Frame second third) : Frame first third :=
  ⟨later.mm.trans earlier.mm, later.generation.trans earlier.generation,
    later.sequence.trans earlier.sequence, later.layout.trans earlier.layout,
    later.pending.trans earlier.pending, later.admitted.trans earlier.admitted,
    later.forkPending.trans earlier.forkPending⟩

/-- Only the index, the header and the node supply may have changed. -/
structure SameMap (before after : Root) : Prop extends Frame before after where
  tree : after.tree = before.tree
  minted : after.minted = before.minted
  retiredBelow : after.retiredBelow = before.retiredBelow

theorem SameMap.refl (root : Root) : SameMap root root := ⟨Frame.refl root, rfl, rfl, rfl⟩

theorem SameMap.trans (first second third : Root) (earlier : SameMap first second)
    (later : SameMap second third) : SameMap first third :=
  ⟨earlier.toFrame.trans later.toFrame, later.tree.trans earlier.tree,
    later.minted.trans earlier.minted, later.retiredBelow.trans earlier.retiredBelow⟩

instance : IsPreorder Root SameMap where
  refl := SameMap.refl
  trans := SameMap.trans

/-! ## Writes to the index -/

/-- A relation that holds across the writes to an entry and to the queue. -/
structure KeptByWrites (relation : Root -> Root -> Prop) : Prop where
  write : ∀ entry, Relates relation (writeSource entry)
  queue : ∀ name, Relates relation (queueSource name)

namespace KeptByWrites

variable {relation : Root -> Root -> Prop} [IsPreorder Root relation]
  (kept : KeptByWrites relation)

include kept

theorem add (name : SourceName) (bytes : Nat) : Relates relation (sourceAdd name bytes) := by
  refine Relates.observing (fun found => ?_)
  refine Relates.demanding (fun entry => ?_)
  refine Relates.demanding (fun count => ?_)
  exact kept.write _

theorem sub (name : SourceName) (bytes : Nat) : Relates relation (sourceSub name bytes) := by
  refine Relates.observing (fun found => ?_)
  refine Relates.demanding (fun entry => ?_)
  refine Relates.demanding (fun count => ?_)
  split
  · exact Relates.bind (kept.queue _) (fun _ => kept.write _)
  · exact kept.write _

theorem charge (node : Node) : Relates relation (chargeSource node) := by
  unfold chargeSource
  split
  · exact Relates.pure _
  · exact kept.add _ _

theorem release (node : Node) : Relates relation (releaseSource node) := by
  unfold releaseSource
  split
  · exact Relates.pure _
  · exact kept.sub _ _

theorem retireUnused {name : SourceName} (reserve : Relates relation (sourceReserve name)) :
    Relates relation (retireUnusedSource name) := by
  refine Relates.bind reserve (fun _ => ?_)
  refine Relates.observing (fun found => ?_)
  refine Relates.demanding (fun entry => ?_)
  split
  · exact Relates.bind (kept.queue _) (fun _ => kept.write _)
  · exact Relates.pure _

end KeptByWrites

/-! ## Nothing but the index -/

theorem hostNode_sameMap : Relates SameMap hostNode := by
  intro root
  unfold hostNode
  split
  · exact SameMap.refl root
  · exact ⟨⟨rfl, rfl, rfl, rfl, rfl, rfl, rfl⟩, rfl, rfl, rfl⟩

theorem allocateSpares_sameMap (needed : Nat) : Relates SameMap (allocateSpares needed) := by
  induction needed with
  | zero => exact Relates.pure _
  | succ needed ih =>
    refine Relates.bind hostNode_sameMap (fun _ => ?_)
    exact Relates.bind ih (fun _ => Relates.pure _)

theorem ensureFamilyHeader_sameMap : Relates SameMap ensureFamilyHeader := by
  refine Relates.observing (fun present => ?_)
  cases present with
  | true => exact Relates.pure _
  | false =>
    refine Relates.bind hostNode_sameMap (fun _ => ?_)
    exact fun root => ⟨⟨rfl, rfl, rfl, rfl, rfl, rfl, rfl⟩, rfl, rfl, rfl⟩

theorem SameMap.kept : KeptByWrites SameMap :=
  ⟨fun _ _ => ⟨⟨rfl, rfl, rfl, rfl, rfl, rfl, rfl⟩, rfl, rfl, rfl⟩,
    fun _ _ => ⟨⟨rfl, rfl, rfl, rfl, rfl, rfl, rfl⟩, rfl, rfl, rfl⟩⟩

theorem sourceReserve_sameMap (name : SourceName) : Relates SameMap (sourceReserve name) := by
  refine Relates.observing (fun present => ?_)
  cases present with
  | true => exact Relates.pure _
  | false =>
    refine Relates.bind ensureFamilyHeader_sameMap (fun _ => ?_)
    refine Relates.bind hostNode_sameMap (fun _ => ?_)
    exact fun root => ⟨⟨rfl, rfl, rfl, rfl, rfl, rfl, rfl⟩, rfl, rfl, rfl⟩

theorem retireUnusedSource_sameMap (name : SourceName) :
    Relates SameMap (retireUnusedSource name) :=
  SameMap.kept.retireUnused (sourceReserve_sameMap name)

theorem takeRetiredFrom_sameMap (queue : List SourceName) :
    Relates SameMap (takeRetiredFrom queue) := by
  induction queue with
  | nil => exact Relates.pure _
  | cons name rest ih =>
    refine Relates.bind ?_ (fun _ => ?_)
    · exact fun root => ⟨⟨rfl, rfl, rfl, rfl, rfl, rfl, rfl⟩, rfl, rfl, rfl⟩
    refine Relates.observing (fun found => ?_)
    refine Relates.demanding (fun entry => ?_)
    split
    · exact Relates.bind (SameMap.kept.write _) (fun _ => ih)
    · refine Relates.bind ?_ (fun _ => Relates.pure _)
      exact fun root => ⟨⟨rfl, rfl, rfl, rfl, rfl, rfl, rfl⟩, rfl, rfl, rfl⟩

theorem takeRetiredHostBacking_sameMap : Relates SameMap takeRetiredHostBacking :=
  Relates.bind (Relates.observe _) takeRetiredFrom_sameMap

/-! ## What the commands do to an entry -/

/-- The index is sorted, and the queue lists the queued entries once each.
Every command on the index keeps this. -/
structure IndexOk (root : Root) : Prop where
  sorted : SearchTree.Sorted SourceEntry.rank root.sources
  queue_nodup : root.retired.Nodup
  queue_iff : ∀ name, name ∈ root.retired <->
    ∃ entry, root.sourceFind name = some entry ∧ entry.queued = true

variable {root : Root} {name : SourceName} {entry : SourceEntry}

theorem IndexOk.entry_name (index : IndexOk root) (found : root.sourceFind name = some entry) :
    entry.name = name :=
  SourceName.rank_injective ((SearchTree.lookup_eq_some_iff index.sorted).mp found).2

theorem refCount_of_find (found : root.sourceFind name = some entry) :
    root.sourceRefCount name = entry.count := by
  unfold Root.sourceRefCount
  rw [found]
  rfl

theorem find_of_refCount (counted : 0 < root.sourceRefCount name) :
    ∃ entry, root.sourceFind name = some entry ∧ entry.count = root.sourceRefCount name := by
  unfold Root.sourceRefCount at counted ⊢
  cases found : root.sourceFind name with
  | none =>
    rw [found] at counted
    exact absurd counted (Nat.lt_irrefl 0)
  | some entry => exact ⟨entry, rfl, rfl⟩

/-- A source without bytes that stands in the retirement queue. -/
def Root.awaitsRetirement (root : Root) (name : SourceName) : Prop :=
  ∃ entry, root.sourceFind name = some entry ∧ entry.count = 0 ∧ entry.queued = true

theorem awaitsRetirement_of_find (found : root.sourceFind name = some entry) :
    root.awaitsRetirement name <-> entry.count = 0 ∧ entry.queued = true := by
  unfold Root.awaitsRetirement
  rw [found]
  simp

variable {before after : Root}

theorem awaitsRetirement_congr (same : after.sourceFind name = before.sourceFind name) :
    after.awaitsRetirement name <-> before.awaitsRetirement name := by
  unfold Root.awaitsRetirement
  rw [same]

theorem refCount_of_awaitsRetirement (awaits : root.awaitsRetirement name) :
    root.sourceRefCount name = 0 := by
  rcases awaits with ⟨entry, found, none, _⟩
  exact (refCount_of_find found).trans none

theorem refCount_congr
    (same : (after.sourceFind name).map SourceEntry.count = (before.sourceFind name).map
      SourceEntry.count) :
    after.sourceRefCount name = before.sourceRefCount name := by
  unfold Root.sourceRefCount
  rw [same]

theorem writeSource_find (entry : SourceEntry) (root : Root) (other : SourceName) :
    ((writeSource entry root).2).sourceFind other =
      if other = entry.name then
        (root.sourceFind other).map
          (fun old => { old with count := entry.count, queued := entry.queued })
      else root.sourceFind other := by
  have same : other = entry.name <-> other.rank = entry.rank :=
    ⟨fun equal => by rw [equal]; rfl, fun equal => SourceName.rank_injective equal⟩
  rw [if_congr same rfl rfl]
  exact SearchTree.lookup_modify root.sources entry.rank other.rank (fun _ => rfl)

theorem IndexOk.write (index : IndexOk root)
    (queuedSame : ∀ old, root.sourceFind entry.name = some old -> old.queued = entry.queued) :
    IndexOk (writeSource entry root).2 := by
  refine ⟨index.sorted.modify (fun _ => rfl), index.queue_nodup, ?_⟩
  intro name
  rw [writeSource_find]
  refine (index.queue_iff name).trans ?_
  split
  · rename_i asked
    cases found : root.sourceFind name with
    | none => simp
    | some old =>
      have sameFlag := queuedSame old (asked ▸ found)
      simp [sameFlag]
  · rfl

theorem IndexOk.enqueue (index : IndexOk root) {old : SourceEntry}
    (found : root.sourceFind name = some old) (idle : old.queued = false) (count : Nat) :
    IndexOk (writeSource ⟨name, count, true⟩ (queueSource name root).2).2 := by
  have absent : name ∉ root.retired := by
    intro member
    rcases (index.queue_iff name).mp member with ⟨other, otherFound, queued⟩
    rw [found] at otherFound
    cases otherFound
    rw [idle] at queued
    cases queued
  refine ⟨index.sorted.modify (fun _ => rfl), List.nodup_cons.mpr ⟨absent, index.queue_nodup⟩, ?_⟩
  intro other
  have kept : ((queueSource name root).2).sourceFind other = root.sourceFind other := rfl
  rw [writeSource_find, kept]
  change other ∈ name :: root.retired <-> _
  rw [List.mem_cons]
  by_cases asked : other = name
  · rw [if_pos asked, asked, found]
    simp
  · rw [if_neg asked, <- index.queue_iff other]
    simp [asked]

/-- The index itself is unchanged. -/
def SameIndex (before after : Root) : Prop :=
  after.sources = before.sources ∧ after.retired = before.retired

theorem SameIndex.refl (root : Root) : SameIndex root root := ⟨rfl, rfl⟩

theorem SameIndex.trans (first second third : Root) (earlier : SameIndex first second)
    (later : SameIndex second third) : SameIndex first third :=
  ⟨later.1.trans earlier.1, later.2.trans earlier.2⟩

instance : IsPreorder Root SameIndex where
  refl := SameIndex.refl
  trans := SameIndex.trans

theorem SameIndex.find (same : SameIndex before after) (name : SourceName) :
    after.sourceFind name = before.sourceFind name := by
  unfold Root.sourceFind
  rw [same.1]

theorem SameIndex.refCount (same : SameIndex before after) (name : SourceName) :
    after.sourceRefCount name = before.sourceRefCount name := by
  unfold Root.sourceRefCount
  rw [same.find]

theorem IndexOk.congr (index : IndexOk before) (same : SameIndex before after) : IndexOk after := by
  refine ⟨same.1 ▸ index.sorted, same.2 ▸ index.queue_nodup, ?_⟩
  intro name
  rw [same.2, same.find]
  exact index.queue_iff name

theorem hostNode_sameIndex : Relates SameIndex hostNode := by
  intro root
  unfold hostNode
  split <;> exact ⟨rfl, rfl⟩

theorem allocateSpares_sameIndex (needed : Nat) : Relates SameIndex (allocateSpares needed) := by
  induction needed with
  | zero => exact Relates.pure _
  | succ needed ih =>
    refine Relates.bind hostNode_sameIndex (fun _ => ?_)
    exact Relates.bind ih (fun _ => Relates.pure _)

theorem ensureFamilyHeader_sameIndex : Relates SameIndex ensureFamilyHeader := by
  refine Relates.observing (fun present => ?_)
  cases present with
  | true => exact Relates.pure _
  | false =>
    exact Relates.bind hostNode_sameIndex (fun _ _ => ⟨rfl, rfl⟩)

def withFreshSource (root : Root) (name : SourceName) (other : SourceName) : Option SourceEntry :=
  if other = name then some ⟨name, 0, false⟩ else root.sourceFind other

/-- How registering a source changes the entries: not at all, or by a missing
entry that appears without bytes. -/
structure Registered (name : SourceName) (before after : Root) : Prop where
  index : IndexOk after
  queue : after.retired = before.retired
  entries : after.sourceFind = before.sourceFind ∨
    before.sourceFind name = none ∧ after.sourceFind = withFreshSource before name

theorem Registered.refCount (registered : Registered name before after) (other : SourceName) :
    after.sourceRefCount other = before.sourceRefCount other := by
  unfold Root.sourceRefCount
  rcases registered.entries with same | ⟨absent, fresh⟩
  · rw [same]
  rw [fresh]
  unfold withFreshSource
  split
  · rename_i asked
    rw [asked, absent]
    rfl
  · rfl

theorem Registered.find {other : SourceName} (registered : Registered name before after)
    (found : before.sourceFind other = some entry) :
    after.sourceFind other = some entry := by
  rcases registered.entries with same | ⟨absent, fresh⟩
  · rw [same, found]
  have different : other ≠ name := by
    rintro rfl
    rw [found] at absent
    cases absent
  rw [fresh]
  unfold withFreshSource
  rw [if_neg different, found]

theorem Registered.awaitsRetirement (registered : Registered name before after)
    (other : SourceName) :
    after.awaitsRetirement other <-> before.awaitsRetirement other := by
  rcases registered.entries with same | ⟨absent, fresh⟩
  · exact awaitsRetirement_congr (congrFun same other)
  unfold Root.awaitsRetirement
  rw [fresh]
  unfold withFreshSource
  split
  · rename_i asked
    rw [asked, absent]
    simp
  · rfl

theorem Registered.of_sameIndex (index : IndexOk before) (same : SameIndex before after) :
    Registered name before after :=
  ⟨index.congr same, same.2, .inl (funext same.find)⟩

/-- The root with a new entry in its index. -/
def Root.insertSource (root : Root) (entry : SourceEntry) : Root :=
  { root with sources := root.sources.insert sourceSummary SourceEntry.rank entry }

theorem insertSource_find (index : IndexOk root) (absent : root.sourceFind name = none)
    (other : SourceName) :
    (root.insertSource ⟨name, 0, false⟩).sourceFind other = withFreshSource root name other := by
  have unknown : root.sources.lookup SourceEntry.rank (SourceEntry.rank ⟨name, 0, false⟩) = none :=
    absent
  have same : other = name <-> other.rank = (SourceEntry.rank ⟨name, 0, false⟩) :=
    ⟨fun equal => by rw [equal]; rfl, fun equal => SourceName.rank_injective equal⟩
  unfold withFreshSource
  rw [if_congr same rfl rfl]
  exact SearchTree.lookup_insert index.sorted unknown other.rank

theorem Registered.insert (index : IndexOk root) (absent : root.sourceFind name = none) :
    Registered name root (root.insertSource ⟨name, 0, false⟩) := by
  have fresh : ∀ other ∈ root.sources.toList,
      other.rank ≠ (SourceEntry.rank ⟨name, 0, false⟩) := by
    intro other member same
    have found : root.sourceFind name = some other :=
      (SearchTree.lookup_eq_some_iff index.sorted).mpr ⟨member, same⟩
    rw [absent] at found
    cases found
  have entries := insertSource_find index absent
  refine ⟨⟨index.sorted.insert fresh, index.queue_nodup, ?_⟩, rfl, .inr ⟨absent, funext entries⟩⟩
  intro other
  rw [entries]
  refine (index.queue_iff other).trans ?_
  unfold withFreshSource
  split
  · rename_i asked
    rw [asked, absent]
    simp
  · rfl

theorem sourceReserve_spec (index : IndexOk root) (name : SourceName) :
    Registered name root (sourceReserve name root).2 ∧
      ((sourceReserve name root).1 = .ok () ->
        (((sourceReserve name root).2).sourceFind name).isSome = true) := by
  unfold sourceReserve
  rw [observe_bind_apply]
  cases present : (root.sourceFind name).isSome with
  | true => exact ⟨Registered.of_sameIndex index (SameIndex.refl root), fun _ => present⟩
  | false =>
    have absent : root.sourceFind name = none := by simpa using present
    rw [if_neg (by simp)]
    have header := ensureFamilyHeader_sameIndex root
    cases headed : ensureFamilyHeader root with
    | mk answer middle =>
      rw [headed] at header
      cases answer with
      | error reason =>
        rw [bind_of_error headed]
        exact ⟨Registered.of_sameIndex index header, nofun⟩
      | ok done =>
        rw [bind_of_ok headed]
        have taken := hostNode_sameIndex middle
        cases allocated : hostNode middle with
        | mk answer last =>
          rw [allocated] at taken
          have same := SameIndex.trans _ _ _ header taken
          cases answer with
          | error reason =>
            rw [bind_of_error allocated]
            exact ⟨Registered.of_sameIndex index same, nofun⟩
          | ok node =>
            rw [bind_of_ok allocated]
            change Registered name root (last.insertSource ⟨name, 0, false⟩) ∧
              (_ -> ((last.insertSource ⟨name, 0, false⟩).sourceFind name).isSome = true)
            have lastAbsent : last.sourceFind name = none := by rw [same.find, absent]
            have inserted := Registered.insert (index.congr same) lastAbsent
            have entries := insertSource_find (index.congr same) lastAbsent
            refine ⟨⟨inserted.index, inserted.queue.trans same.2, .inr ⟨absent, ?_⟩⟩,
              fun _ => ?_⟩
            · funext other
              rw [entries]
              unfold withFreshSource
              rw [same.find]
            · rw [entries]
              unfold withFreshSource
              simp

theorem sourceReserve_of_find (found : root.sourceFind name = some entry) :
    sourceReserve name root = (.ok (), root) := by
  unfold sourceReserve
  rw [observe_bind_apply, found]
  rfl

theorem sourceAdd_spec (index : IndexOk root) {bytes : Nat}
    (found : root.sourceFind name = some entry) (fits : entry.count + bytes < wordLimit) :
    ∃ after, sourceAdd name bytes root = (.ok (), after) ∧ IndexOk after ∧
      after.retired = root.retired ∧
      ∀ other, after.sourceFind other =
        if other = name then some { entry with count := entry.count + bytes }
        else root.sourceFind other := by
  have named := index.entry_name found
  refine ⟨(writeSource { entry with count := entry.count + bytes } root).2, ?_, ?_, rfl, ?_⟩
  · unfold sourceAdd
    rw [observe_bind_apply, demand_bind_some found, demand_bind_some (checkedAdd_of_lt fits)]
    rfl
  · refine index.write ?_
    intro old oldFound
    dsimp only at oldFound ⊢
    rw [named, found] at oldFound
    cases oldFound
    rfl
  intro other
  rw [writeSource_find]
  dsimp only
  rw [named]
  split
  · rename_i asked
    rw [asked, found]
    simp [named]
  · rfl

theorem sourceSub_spec (index : IndexOk root) {bytes : Nat}
    (found : root.sourceFind name = some entry) (enough : bytes <= entry.count) :
    ∃ after, sourceSub name bytes root = (.ok (), after) ∧ IndexOk after ∧
      after.retired = (if entry.count - bytes = 0 ∧ entry.queued = false then name :: root.retired
        else root.retired) ∧
      ∀ other, after.sourceFind other =
        if other = name then
          some { entry with
            count := entry.count - bytes
            queued := entry.queued || decide (entry.count - bytes = 0) }
        else root.sourceFind other := by
  have named := index.entry_name found
  have counted : checkedSub entry.count bytes = some (entry.count - bytes) :=
    checkedSub_eq_some_iff.mpr ⟨enough, rfl⟩
  have start : sourceSub name bytes root =
      (if entry.count - bytes = 0 ∧ entry.queued = false then
        (do
          queueSource name
          writeSource { entry with count := 0, queued := true } : Guarded Unit)
      else writeSource { entry with count := entry.count - bytes }) root := by
    unfold sourceSub
    rw [observe_bind_apply, demand_bind_some found, demand_bind_some counted]
  rw [start]
  split
  · rename_i last
    refine ⟨(writeSource { entry with count := 0, queued := true } (queueSource name root).2).2,
      rfl, ?_, rfl, ?_⟩
    · rw [named]
      exact index.enqueue found last.2 0
    intro other
    refine (writeSource_find _ _ other).trans ?_
    have kept : ((queueSource name root).2).sourceFind other = root.sourceFind other := rfl
    rw [kept]
    dsimp only
    rw [named]
    split
    · rename_i asked
      rw [asked, found, last.1]
      simp [named]
    · rfl
  rename_i more
  refine ⟨_, rfl, ?_, rfl, ?_⟩
  · refine index.write ?_
    intro old oldFound
    dsimp only at oldFound ⊢
    rw [named, found] at oldFound
    cases oldFound
    rfl
  intro other
  refine (writeSource_find _ _ other).trans ?_
  dsimp only
  rw [named]
  split
  · rename_i asked
    rw [asked, found]
    have flag : (entry.queued || decide (entry.count - bytes = 0)) = entry.queued := by
      cases queued : entry.queued with
      | true => rfl
      | false =>
        have positive : entry.count - bytes ≠ 0 := fun zero => more ⟨zero, queued⟩
        simp [positive]
    simp [flag, named]
  · rfl

end Reservation
end Carrick
