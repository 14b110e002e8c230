import Carrick.Reservation.Runs

namespace Carrick
namespace Reservation

open Foundation
open Command

/-!
# Custody of byte sources

A source is due when its last mapped byte went, or when it was named unused,
and it has neither been mapped nor handed out since.  The record of what is
due is kept beside the run and mentions only the committed nodes and the
answers; the queue and the counts of the index are shown to agree with it.
Hence a source is handed out only while it is due, at most once for each time
it became due, and asking until nothing is left hands out everything due.
-/

/-! ## What is due -/

/-- What is due after an event: an unmapped source that was mapped before, was
retired unused or was due already, unless the event hands it out. -/
def dueAfter (before : Root) (event : Event) (due : SourceName -> Prop) (name : SourceName) : Prop :=
  total (event.run before).2.tree name = 0 ∧
  (event.run before).1 ≠ .ok (.retired (some name)) ∧
  (0 < total before.tree name ∨
    event.call = .retireUnusedSource name ∧ (event.run before).1 = .ok .done ∨ due name)

/-- A reachable root together with what is due in it.  A child that a fork
fills starts from what was due in the empty child. -/
inductive Watched (allowed : Root -> Event -> Prop) : Root -> (SourceName -> Prop) -> Prop
  | claimed {root : Root} (claimed : root.Claimed) : Watched allowed root (fun _ => False)
  | called {before : Root} {due : SourceName -> Prop} (earlier : Watched allowed before due)
      {event : Event} (allows : allowed before event) :
      Watched allowed (event.run before).2 (dueAfter before event due)
  | forked {parent child after : Root} {dueParent due : SourceName -> Prop}
      (ofParent : Watched allowed parent dueParent) (ofChild : Watched allowed child due)
      {parentAround childAround : Surroundings}
      (cloned : cloneInto (parent.within parentAround) (child.within childAround) = (.ok (), after)) :
      Watched allowed after (fun name => total after.tree name = 0 ∧ due name)

/-! ## The queue agrees with it -/

variable {root : Root}

theorem answer_of_answering {α : Type} {answer : α -> Answer} {command : Guarded α}
    {value : Answer} (answered : (answering answer command root).1 = .ok value) :
    ∃ found, value = answer found := by
  cases ran : answering answer command root with
  | mk result after =>
    rw [ran] at answered
    cases answered
    rcases bind_eq_ok ran with ⟨found, middle, _, made⟩
    cases made
    exact ⟨found, rfl⟩

theorem not_retired_of_queues {call : Call} (other : call.queues = false) (root : Root)
    (name : Option SourceName) : (call.run root).1 ≠ .ok (.retired name) := by
  intro answered
  cases call with
  | retireUnusedSource name => cases other
  | takeRetiredHostBacking => cases other
  | _ =>
    rcases answer_of_answering answered with ⟨found, wrong⟩
    cases wrong

theorem retired_eq_of_take (index : IndexOk root) :
    (Call.run .takeRetiredHostBacking root).1 = .ok (.retired root.nextRetired) := by
  rcases takeRetiredHostBacking_spec index with ⟨after, ran, _⟩
  exact congrArg Prod.fst (answering_of_ok ran)

/-- What an event makes of the queue, in terms of the counts. -/
def Requeues (root : Root) (event : Event) (name : SourceName) : Prop :=
  (event.run root).2.awaitsRetirement name <->
    (event.run root).2.sourceRefCount name = 0 ∧
    (event.run root).1 ≠ .ok (.retired (some name)) ∧
    (0 < root.sourceRefCount name ∨
      event.call = .retireUnusedSource name ∧ (event.run root).1 = .ok .done ∨
      root.awaitsRetirement name)

theorem retireUnusedSource_requeues (sound : Sound root) (asked : SourceName)
    (around : Surroundings) (name : SourceName) :
    Requeues root ⟨.retireUnusedSource asked, around⟩ name := by
  have soundHere := (within_untouched root around).keepsSound sound
  have empty : root.awaitsRetirement name -> root.sourceRefCount name = 0 :=
    refCount_of_awaitsRetirement
  unfold Requeues
  rcases retireUnusedSource_cases soundHere.counted.index asked with
    ⟨reason, after, ran, steady, _⟩ | ⟨after, ran, requeued⟩
  · have runs : Event.run ⟨.retireUnusedSource asked, around⟩ root = (.error reason, after) :=
      bind_of_error ran
    have same := steady.sources soundHere.counted.index
    have counts : after.sourceRefCount name = root.sourceRefCount name := same.counts name
    have awaits : after.awaitsRetirement name <-> root.awaitsRetirement name := same.awaits name
    rw [runs]
    dsimp only
    rw [counts, awaits]
    constructor
    · exact fun waiting => ⟨empty waiting, nofun, .inr (.inr waiting)⟩
    · rintro ⟨none, _, held | ⟨_, wrong⟩ | waiting⟩
      · omega
      · cases wrong
      · exact waiting
  have runs : Event.run ⟨.retireUnusedSource asked, around⟩ root = (.ok .done, after) :=
    answering_of_ok ran
  have counts : after.sourceRefCount name = root.sourceRefCount name := requeued.counts name
  have awaits : after.awaitsRetirement name <->
      root.awaitsRetirement name ∨ name = asked ∧ root.sourceRefCount asked = 0 :=
    requeued.awaits name
  rw [runs]
  dsimp only
  rw [counts, awaits]
  constructor
  · rintro (waiting | ⟨same, none⟩)
    · exact ⟨empty waiting, nofun, .inr (.inr waiting)⟩
    · refine ⟨same ▸ none, nofun, .inr (.inl ⟨?_, rfl⟩)⟩
      rw [same]
  rintro ⟨none, _, held | ⟨same, _⟩ | waiting⟩
  · omega
  · cases same
    exact .inr ⟨rfl, none⟩
  · exact .inl waiting

theorem takeRetiredHostBacking_requeues (sound : Sound root) (around : Surroundings)
    (name : SourceName) : Requeues root ⟨.takeRetiredHostBacking, around⟩ name := by
  have soundHere := (within_untouched root around).keepsSound sound
  have empty : root.awaitsRetirement name -> root.sourceRefCount name = 0 :=
    refCount_of_awaitsRetirement
  unfold Requeues
  rcases takeRetiredHostBacking_spec soundHere.counted.index with ⟨after, ran, taken⟩
  have runs : Event.run ⟨.takeRetiredHostBacking, around⟩ root =
      (.ok (.retired root.nextRetired), after) := answering_of_ok ran
  have counts : after.sourceRefCount name = root.sourceRefCount name := taken.counts name
  have awaits : after.awaitsRetirement name <->
      root.awaitsRetirement name ∧ root.nextRetired ≠ some name := taken.awaits name
  rw [runs]
  dsimp only
  rw [counts, awaits]
  constructor
  · rintro ⟨waiting, other⟩
    refine ⟨empty waiting, fun same => ?_, .inr (.inr waiting)⟩
    injection same with same
    injection same with same
    exact other same
  · rintro ⟨none, other, held | ⟨wrong, _⟩ | waiting⟩
    · omega
    · cases wrong
    · exact ⟨waiting, fun same => other (by rw [same])⟩

theorem other_requeues (sound : Sound root) {event : Event}
    (careful : event.careful root) (other : event.call.queues = false) (name : SourceName) :
    Requeues root event name := by
  have soundHere : Sound (root.within event.around) :=
    (within_untouched root event.around).keepsSound sound
  have settled := (run_edited soundHere careful other).settled
  have notRetired := not_retired_of_queues other (root.within event.around) (some name)
  have notUnused : event.call ≠ .retireUnusedSource name := by
    intro same
    rw [same] at other
    cases other
  refine (settled.awaits name).trans ?_
  constructor
  · rintro ⟨none, held | waiting⟩
    · exact ⟨none, notRetired, .inl held⟩
    · exact ⟨none, notRetired, .inr (.inr waiting)⟩
  · rintro ⟨none, _, held | ⟨wrong, _⟩ | waiting⟩
    · exact ⟨none, .inl held⟩
    · exact absurd wrong notUnused
    · exact ⟨none, .inr waiting⟩

theorem Event.requeues (sound : Sound root) {event : Event}
    (careful : event.careful root) (name : SourceName) : Requeues root event name := by
  cases queue : event.call.queues with
  | false => exact other_requeues sound careful queue name
  | true =>
    rcases event with ⟨call, around⟩
    cases call with
    | retireUnusedSource asked => exact retireUnusedSource_requeues sound asked around name
    | takeRetiredHostBacking => exact takeRetiredHostBacking_requeues sound around name
    | _ => cases queue

/-- The invariant of a watched run: the root is sound, and its queue holds
exactly what is due. -/
structure InCustody (root : Root) (due : SourceName -> Prop) : Prop where
  sound : Sound root
  due_iff : ∀ name, due name <-> root.awaitsRetirement name

theorem Watched.inCustody {due : SourceName -> Prop}
    (watched : Watched (fun before event => event.careful before) root due) :
    InCustody root due := by
  induction watched with
  | claimed claimed =>
    refine ⟨claimed.sound, fun name => ?_⟩
    constructor
    · exact False.elim
    · rintro ⟨entry, found, _⟩
      unfold Root.sourceFind at found
      rw [claimed.sources] at found
      cases found
  | @called before due _ event allows ih =>
    have sound := ih.sound
    have soundAfter := (Event.performed sound allows).sound
    refine ⟨soundAfter, fun name => ?_⟩
    refine Iff.trans ?_ (Event.requeues sound allows name).symm
    unfold dueAfter
    rw [<- soundAfter.counted.counts name, <- sound.counted.counts name,
      ih.due_iff name]
  | @forked parent child after _ due _ _ parentAround childAround cloned parentHypothesis
      childHypothesis =>
      have spec := (cloneInto_cloned _ _).of_eq cloned rfl
      have both := spec.sound ((within_untouched _ _).keepsSound parentHypothesis.sound)
        ((within_untouched _ _).keepsSound childHypothesis.sound)
      have empty : ∀ name, (child.within childAround).sourceRefCount name = 0 := by
        intro name
        have counts : (child.within childAround).sourceRefCount name = total child.tree name :=
          childHypothesis.sound.counted.counts name
        have leaf : child.tree = .leaf := spec.child_empty
        rw [counts, leaf]
        rfl
      refine ⟨both.1, fun name => ?_⟩
      rw [both.2.awaits name, both.1.counted.counts name, childHypothesis.due_iff name, empty name]
      simp only [Nat.lt_irrefl, false_or]
      exact Iff.rfl

/-! ## Handing out -/

/-- Ask the queue again and again, collecting what it hands out. -/
def drain : Nat -> Root -> List SourceName
  | 0, _ => []
  | rounds + 1, root =>
    match takeRetiredHostBacking root with
    | (.ok (some name), after) => name :: drain rounds after
    | _ => []

theorem drain_nodup {rounds : Nat} (index : IndexOk root) :
    (drain rounds root).Nodup ∧ ∀ name ∈ drain rounds root, root.awaitsRetirement name := by
  induction rounds generalizing root with
  | zero => exact ⟨List.nodup_nil, nofun⟩
  | succ rounds ih =>
    rcases takeRetiredHostBacking_spec index with ⟨after, ran, taken⟩
    unfold drain
    rw [ran]
    cases next : root.nextRetired with
    | none => exact ⟨List.nodup_nil, nofun⟩
    | some name =>
      rw [next] at taken
      rcases ih taken.index with ⟨distinct, waiting⟩
      refine ⟨List.nodup_cons.mpr ⟨fun again => ?_, distinct⟩, fun other member => ?_⟩
      · exact ((taken.awaits name).mp (waiting name again)).2 rfl
      · rcases List.mem_cons.mp member with same | later
        · rw [same]
          exact awaits_of_nextRetired index next
        · exact ((taken.awaits other).mp (waiting other later)).1

theorem mem_drain {rounds : Nat} (index : IndexOk root)
    (enough : root.retired.length <= rounds) {name : SourceName} (waits : root.awaitsRetirement name) :
    name ∈ drain rounds root := by
  induction rounds generalizing root with
  | zero =>
    rcases waits with ⟨entry, found, _, queued⟩
    have member := (index.queue_iff name).mpr ⟨entry, found, queued⟩
    rw [List.length_eq_zero_iff.mp (Nat.le_zero.mp enough)] at member
    cases member
  | succ rounds ih =>
    rcases takeRetiredHostBacking_spec index with ⟨after, ran, taken⟩
    unfold drain
    rw [ran]
    cases next : root.nextRetired with
    | none => exact absurd waits ((nextRetired_eq_none index).mp next name)
    | some first =>
      rw [next] at taken
      by_cases same : first = name
      · rw [same]
        exact List.mem_cons_self
      have shorter := taken.shorter
      simp only [Option.isSome_some, Bool.toNat_true] at shorter
      have later := (taken.awaits name).mpr
        ⟨waits, fun equal => same (Option.some.inj equal)⟩
      exact List.mem_cons_of_mem _ (ih taken.index (by omega) later)

/-- What a watched run guarantees about the sources of its root: true counts,
and a queue that hands out each source that is due, and only these, once. -/
structure KeepsCustody (root : Root) (due : SourceName -> Prop) : Prop where
  counts : ∀ name, root.sourceRefCount name = total root.tree name
  takes : ∀ around, ∃ name, (Event.run ⟨.takeRetiredHostBacking, around⟩ root).1 =
    .ok (.retired name)
  hands_due : ∀ around name, Event.careful root ⟨.takeRetiredHostBacking, around⟩ ->
    (Event.run ⟨.takeRetiredHostBacking, around⟩ root).1 = .ok (.retired (some name)) ->
    due name ∧ root.pendingSource.map HostBackingIdentity.name ≠ some name ∧
      ∀ node ∈ root.tree.toList,
        node.hostBacking.map HostBackingIdentity.name ≠ some name
  hands_all : ∀ around, (Event.run ⟨.takeRetiredHostBacking, around⟩ root).1 =
    .ok (.retired none) -> ∀ name, ¬ due name
  drains : (drain root.retired.length root).Nodup ∧
    ∀ name, name ∈ drain root.retired.length root <-> due name

theorem total_pos {tree : MappingTree} (tidy : Tidy tree) {node : Node}
    (member : node ∈ tree.toList) {name : SourceName}
    (has : node.hostBacking.map HostBackingIdentity.name = some name) : 0 < total tree name := by
  have ordered := (tidy.formed node member).ordered
  rw [total_erase tidy member]
  unfold Node.weight Node.len
  rw [if_pos has]
  omega

/-- In every run of careful calls and forks, each source is counted as it is
mapped, and handed out exactly when it is due. -/
theorem watched_keeps_custody {root : Root} {due : SourceName -> Prop}
    (watched : Watched (fun before event => event.careful before) root due) :
    KeepsCustody root due := by
  rcases watched.inCustody with ⟨sound, dueIff⟩
  have index := sound.counted.index
  have answers : ∀ around, (Event.run ⟨.takeRetiredHostBacking, around⟩ root).1 =
      .ok (.retired root.nextRetired) := fun around =>
    retired_eq_of_take ((within_untouched root around).keepsSound sound).counted.index
  refine ⟨sound.counted.counts, fun around => ⟨_, answers around⟩, ?_, ?_, ?_⟩
  · intro around name careful answered
    rw [answers around] at answered
    injection answered with answered
    injection answered with next
    have waits := awaits_of_nextRetired index next
    refine ⟨(dueIff name).mpr waits, fun recorded => ?_, fun node member has => ?_⟩
    · unfold Event.careful Call.careful at careful
      rw [Bool.and_eq_true] at careful
      rcases Option.map_eq_some_iff.mp recorded with ⟨backing, found, same⟩
      have spared : (!root.pendingSource.any
          (fun backing => decide (root.nextRetired = some backing.name))) = true := careful.2
      rw [found, Option.any_some, same, next] at spared
      simp at spared
    · have held := total_pos sound.tidy member has
      have none := refCount_of_awaitsRetirement waits
      rw [sound.counted.counts] at none
      omega
  · intro around answered
    rw [answers around] at answered
    injection answered with answered
    injection answered with next
    intro name owing
    exact (nextRetired_eq_none index).mp next name ((dueIff name).mp owing)
  · refine ⟨(drain_nodup index).1, fun name => ?_⟩
    rw [dueIff]
    exact ⟨(drain_nodup index).2 name, mem_drain index le_rfl⟩

/-- What is due after a list of events. -/
def dueAll : List Event -> Root -> (SourceName -> Prop) -> SourceName -> Prop
  | [], _, due => due
  | event :: rest, root, due => dueAll rest (event.run root).2 (dueAfter root event due)

theorem watched_runAll {allowed : Root -> Event -> Prop} {events : List Event}
    {due : SourceName -> Prop} (start : Watched allowed root due)
    (allows : allowedAll allowed events root) :
    Watched allowed (runAll events root) (dueAll events root due) := by
  induction events generalizing root due with
  | nil => exact start
  | cons event rest ih => exact ih (start.called allows.1) allows.2

/-- The queue hands out the source that a pending proposal has recorded. -/
theorem pending_source_handed_out :
    ∃ root due around name, Watched (fun _ _ => True) root due ∧
      root.pendingSource.map HostBackingIdentity.name = some name ∧
      (Event.run ⟨.takeRetiredHostBacking, around⟩ root).1 = .ok (.retired (some name)) := by
  refine ⟨runAll revival emptyRoot, _, withLeftover none, mappedSource.name,
    watched_runAll (.claimed emptyRoot_claimed) (allowedAll_true revival emptyRoot), ?_, ?_⟩
  · decide +kernel
  · decide +kernel

/-- After the mapping of a source is gone, the source is due and handed out once. -/
theorem unmapped_source_in_custody :
    Watched (fun before event => event.careful before) (runAll (revival.take 5) emptyRoot)
      (dueAll (revival.take 5) emptyRoot (fun _ => False)) ∧
    KeepsCustody (runAll (revival.take 5) emptyRoot)
      (dueAll (revival.take 5) emptyRoot (fun _ => False)) ∧
    drain 1 (runAll (revival.take 5) emptyRoot) = [mappedSource.name] := by
  have watched : Watched (fun before event => event.careful before)
      (runAll (revival.take 5) emptyRoot) (dueAll (revival.take 5) emptyRoot (fun _ => False)) :=
    watched_runAll (.claimed emptyRoot_claimed) (by decide +kernel)
  exact ⟨watched, watched_keeps_custody watched, by decide +kernel⟩

end Reservation
end Carrick
