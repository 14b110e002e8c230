import Carrick.Reservation.Proposals

namespace Carrick
namespace Reservation

open Foundation
open Command

/-!
# Retiring byte sources

The queue holds every source whose last byte went.  Taking from it pops the
sources that were mapped again in the meantime and hands out the first one
without bytes, whose entry is dropped with it.
-/

/-! ## Queueing an unused source -/

/-- A source is queued by hand: an unmapped one awaits its retirement then, and
nothing else changes. -/
structure Requeued (name : SourceName) (before after : Root) : Prop extends SameMap before after where
  index : IndexOk after
  counts : ∀ other, after.sourceRefCount other = before.sourceRefCount other
  awaits : ∀ other, after.awaitsRetirement other <->
    before.awaitsRetirement other ∨ other = name ∧ before.sourceRefCount name = 0
  entries : KeepsEntries before after

variable {root : Root}

theorem Requeued.enqueue (index : IndexOk root) {name : SourceName}
    {entry : SourceEntry} (found : root.sourceFind name = some entry) (none : entry.count = 0)
    (idle : entry.queued = false) :
    Requeued name root
      (writeSource { entry with queued := true } (queueSource name root).2).2 := by
  have named := index.entry_name found
  have entries : ∀ other,
      ((writeSource { entry with queued := true } (queueSource name root).2).2).sourceFind other =
        if other = name then some { entry with queued := true } else root.sourceFind other := by
    intro other
    refine (writeSource_find _ _ other).trans ?_
    have kept : ((queueSource name root).2).sourceFind other = root.sourceFind other := rfl
    rw [kept]
    dsimp only
    rw [named]
    split
    · rename_i asked
      rw [asked, found]
      simp [named]
    · rfl
  refine ⟨SameMap.trans _ _ _ (SameMap.kept.queue name root) (SameMap.kept.write _ _), ?_, ?_, ?_,
    ?_⟩
  · rw [named]
    exact index.enqueue found idle entry.count
  · intro other
    refine refCount_congr ?_
    rw [entries]
    split
    · rename_i asked
      rw [asked, found]
      rfl
    · rfl
  · intro other
    by_cases asked : other = name
    · rw [awaitsRetirement_of_find ((entries other).trans (if_pos asked))]
      simp [asked, refCount_of_find found, none]
    · rw [awaitsRetirement_congr ((entries other).trans (if_neg asked))]
      simp [asked]
  · intro other present
    rw [entries]
    split
    · rfl
    · exact present

theorem Requeued.idle (index : IndexOk root) {name : SourceName}
    {entry : SourceEntry} (found : root.sourceFind name = some entry)
    (busy : ¬ (entry.count = 0 ∧ entry.queued = false)) : Requeued name root root := by
  refine ⟨SameMap.refl root, index, fun _ => rfl, fun other => ?_, KeepsEntries.refl root⟩
  constructor
  · exact .inl
  rintro (awaiting | ⟨asked, none⟩)
  · exact awaiting
  rw [refCount_of_find found] at none
  rw [asked, awaitsRetirement_of_find found]
  refine ⟨none, ?_⟩
  cases queued : entry.queued with
  | true => rfl
  | false => exact absurd ⟨none, queued⟩ busy

theorem Requeued.registered {name : SourceName} {before middle after : Root}
    (registered : Registered name before middle) (same : SameMap before middle)
    (requeued : Requeued name middle after) : Requeued name before after := by
  refine ⟨SameMap.trans _ _ _ same requeued.toSameMap, requeued.index,
    fun other => (requeued.counts other).trans (registered.refCount other), fun other => ?_,
    KeepsEntries.trans _ _ _ registered.keepsEntries requeued.entries⟩
  rw [requeued.awaits, registered.awaitsRetirement, registered.refCount]

theorem retireUnusedSource_cases (index : IndexOk root) (name : SourceName) :
    (∃ reason after, retireUnusedSource name root = (.error reason, after) ∧
      Steady root after ∧ after.pending = root.pending) ∨
    ∃ after, retireUnusedSource name root = (.ok (), after) ∧ Requeued name root after := by
  have registered := (sourceReserve_spec index name).1
  have present := (sourceReserve_spec index name).2
  have steady := sourceReserve_steady name root
  have same := sourceReserve_sameMap name root
  unfold retireUnusedSource
  cases reserved : sourceReserve name root with
  | mk answer middle =>
    rw [reserved] at registered present steady same
    cases answer with
    | error reason =>
      exact .inl ⟨reason, middle, bind_of_error reserved, steady, same.pending⟩
    | ok done =>
      rcases Option.isSome_iff_exists.mp (present rfl) with ⟨entry, found⟩
      rw [bind_of_ok reserved, observe_bind_apply, demand_bind_some found]
      by_cases idle : entry.count = 0 ∧ entry.queued = false
      · rw [if_pos idle]
        exact .inr ⟨_, rfl, Requeued.registered registered same
          (Requeued.enqueue registered.index found idle.1 idle.2)⟩
      · rw [if_neg idle]
        exact .inr ⟨middle, rfl, Requeued.registered registered same
          (Requeued.idle registered.index found idle)⟩

/-! ## Taking a retired source -/

/-- The source that is handed out next: the first of the queue without bytes. -/
def Root.nextRetired (root : Root) : Option SourceName :=
  root.retired.find? (fun name => decide (root.sourceRefCount name = 0))

/-- What taking from the queue does: the answer no longer awaits its retirement,
and all other sources are as before. -/
structure Taken (before after : Root) (answer : Option SourceName) : Prop
    extends SameMap before after where
  index : IndexOk after
  counts : ∀ name, after.sourceRefCount name = before.sourceRefCount name
  awaits : ∀ name, after.awaitsRetirement name <->
    before.awaitsRetirement name ∧ answer ≠ some name
  entries : ∀ name, answer ≠ some name -> (before.sourceFind name).isSome = true ->
    (after.sourceFind name).isSome = true
  shorter : after.retired.length + answer.isSome.toNat <= before.retired.length

theorem Taken.trans {first second third : Root} {answer : Option SourceName}
    (earlier : Taken first second none) (later : Taken second third answer) :
    Taken first third answer := by
  refine ⟨SameMap.trans _ _ _ earlier.toSameMap later.toSameMap, later.index,
    fun name => (later.counts name).trans (earlier.counts name), fun name => ?_,
    fun name other present => later.entries name other (earlier.entries name (by simp) present),
    Nat.le_trans later.shorter earlier.shorter⟩
  rw [later.awaits, earlier.awaits]
  simp

section

variable {name : SourceName} {rest : List SourceName} {entry : SourceEntry}

theorem Taken.skip (index : IndexOk root) (queue : root.retired = name :: rest)
    (found : root.sourceFind name = some entry) (held : entry.count ≠ 0) :
    Taken root (writeSource { entry with queued := false } { root with retired := rest }).2 none := by
  have named := index.entry_name found
  have distinct := List.nodup_cons.mp (queue ▸ index.queue_nodup)
  have entries : ∀ other,
      ((writeSource { entry with queued := false } { root with retired := rest }).2).sourceFind other =
        if other = name then some { entry with queued := false } else root.sourceFind other := by
    intro other
    refine (writeSource_find _ _ other).trans ?_
    have kept : Root.sourceFind { root with retired := rest } other = root.sourceFind other := rfl
    rw [kept]
    dsimp only
    rw [named]
    split
    · rename_i asked
      rw [asked, found]
      simp [named]
    · rfl
  refine ⟨⟨⟨rfl, rfl, rfl, rfl, rfl, rfl, rfl⟩, rfl, rfl, rfl⟩, ⟨?_, distinct.2, ?_⟩, ?_, ?_, ?_,
    ?_⟩
  · exact index.sorted.modify (fun _ => rfl)
  · intro other
    change other ∈ rest <-> _
    rw [entries]
    have queued := index.queue_iff other
    rw [queue, List.mem_cons] at queued
    by_cases asked : other = name
    · rw [if_pos asked, asked]
      simp [distinct.1]
    · rw [if_neg asked, <- queued]
      simp [asked]
  · intro other
    refine refCount_congr ?_
    rw [entries]
    split
    · rename_i asked
      rw [asked, found]
      rfl
    · rfl
  · intro other
    by_cases asked : other = name
    · rw [awaitsRetirement_of_find ((entries other).trans (if_pos asked)), asked,
        awaitsRetirement_of_find found]
      simp [held]
    · rw [awaitsRetirement_congr ((entries other).trans (if_neg asked))]
      simp
  · intro other _ present
    rw [entries]
    split
    · rfl
    · exact present
  · change rest.length <= root.retired.length
    rw [queue]
    exact Nat.le_succ _

theorem Taken.drop (index : IndexOk root) (queue : root.retired = name :: rest)
    (found : root.sourceFind name = some entry) (none : entry.count = 0) :
    Taken root
      { root with
        retired := rest
        sources := root.sources.unlink sourceSummary SourceEntry.rank name.rank }
      (some name) := by
  have distinct := List.nodup_cons.mp (queue ▸ index.queue_nodup)
  have entries : ∀ other, Root.sourceFind
      { root with
        retired := rest
        sources := root.sources.unlink sourceSummary SourceEntry.rank name.rank } other =
      if other = name then Option.none else root.sourceFind other := by
    intro other
    have same : other = name <-> other.rank = name.rank :=
      ⟨fun equal => by rw [equal], SourceName.rank_injective⟩
    rw [if_congr same rfl rfl]
    exact SearchTree.lookup_unlink index.sorted name.rank other.rank
  refine ⟨⟨⟨rfl, rfl, rfl, rfl, rfl, rfl, rfl⟩, rfl, rfl, rfl⟩, ⟨?_, distinct.2, ?_⟩, ?_, ?_, ?_,
    by simp [queue]⟩
  · exact index.sorted.unlink name.rank
  · intro other
    change other ∈ rest <-> _
    rw [entries]
    have queued := index.queue_iff other
    rw [queue, List.mem_cons] at queued
    by_cases asked : other = name
    · rw [if_pos asked, asked]
      simp [distinct.1]
    · rw [if_neg asked, <- queued]
      simp [asked]
  · intro other
    unfold Root.sourceRefCount
    rw [entries]
    split
    · rename_i asked
      rw [asked, found]
      simp [none]
    · rfl
  · intro other
    by_cases asked : other = name
    · unfold Root.awaitsRetirement
      rw [entries, if_pos asked]
      simp [asked]
    · rw [awaitsRetirement_congr ((entries other).trans (if_neg asked))]
      have different : name ≠ other := fun same => asked same.symm
      simp [different]
  · intro other different present
    rw [entries, if_neg (fun same => different (congrArg some same.symm))]
    exact present

end

/-- Taking hands out the first source of the queue without bytes. -/
theorem takeRetiredFrom_spec (index : IndexOk root) {queue : List SourceName}
    (same : root.retired = queue) :
    ∃ after, takeRetiredFrom queue root = (.ok root.nextRetired, after) ∧
      Taken root after root.nextRetired := by
  induction queue generalizing root with
  | nil =>
    have nothing : root.nextRetired = none := by
      unfold Root.nextRetired
      rw [same]
      rfl
    rw [nothing]
    exact ⟨root, rfl, SameMap.refl root, index, fun _ => rfl, fun name => by simp,
      fun _ _ present => present, le_rfl⟩
  | cons name rest ih =>
    have queued : name ∈ root.retired := by
      rw [same]
      exact List.mem_cons_self
    rcases (index.queue_iff name).mp queued with ⟨entry, found, _⟩
    rw [takeRetiredFrom, edit_bind_apply, observe_bind_apply]
    have kept : Root.sourceFind { root with retired := rest } name = some entry := found
    rw [demand_bind_some kept]
    have count := refCount_of_find found
    by_cases held : entry.count = 0
    · have next : root.nextRetired = some name := by
        unfold Root.nextRetired
        rw [same, List.find?_cons_of_pos (by simpa [count] using held)]
      rw [if_neg (not_not.mpr held), next]
      exact ⟨_, rfl, Taken.drop index same found held⟩
    have skipped := Taken.skip index same found held
    have next : root.nextRetired = Root.nextRetired
        (writeSource { entry with queued := false } { root with retired := rest }).2 := by
      unfold Root.nextRetired
      rw [same, List.find?_cons_of_neg (by simpa [count] using held)]
      exact congrArg (fun check => List.find? check rest)
        (funext fun other => by rw [skipped.counts other])
    rcases ih skipped.index rfl with ⟨after, ran, taken⟩
    rw [if_pos held, next]
    exact ⟨after, ran, skipped.trans taken⟩

theorem takeRetiredHostBacking_spec (index : IndexOk root) :
    ∃ after, takeRetiredHostBacking root = (.ok root.nextRetired, after) ∧
      Taken root after root.nextRetired := by
  unfold takeRetiredHostBacking
  rw [observe_bind_apply]
  exact takeRetiredFrom_spec index rfl

theorem awaits_of_nextRetired (index : IndexOk root) {name : SourceName}
    (next : root.nextRetired = some name) : root.awaitsRetirement name := by
  unfold Root.nextRetired at next
  rcases (index.queue_iff name).mp (List.mem_of_find?_eq_some next) with ⟨entry, found, queued⟩
  have none := List.find?_some next
  rw [decide_eq_true_eq, refCount_of_find found] at none
  exact ⟨entry, found, none, queued⟩

theorem nextRetired_eq_none (index : IndexOk root) :
    root.nextRetired = none <-> ∀ name, ¬ root.awaitsRetirement name := by
  unfold Root.nextRetired
  rw [List.find?_eq_none]
  constructor
  · rintro nothing name ⟨entry, found, none, queued⟩
    refine nothing name ((index.queue_iff name).mpr ⟨entry, found, queued⟩) ?_
    rw [decide_eq_true_eq, refCount_of_find found]
    exact none
  · intro nobody name member wrong
    rcases (index.queue_iff name).mp member with ⟨entry, found, queued⟩
    rw [decide_eq_true_eq, refCount_of_find found] at wrong
    exact nobody name ⟨entry, found, wrong, queued⟩

end Reservation
end Carrick
