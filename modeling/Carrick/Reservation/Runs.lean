import Carrick.Reservation.Fork
import Carrick.Reservation.Retirement

namespace Carrick
namespace Reservation

open Foundation
open Command

/-!
# Runs of a reservation root

The invariant is carried through every call, under three conditions on a call
and the root it finds.  A remap must not grow a byte source in place behind
the end of the word, a byte source written by hand must reach the last page of
the pending range, and the retirement queue must not be asked for the source
that a pending file mapping has recorded.  What a completion then commits, that
it cannot fail, and that the counts of the index are exact follow for every
reachable root.
-/

/-! ## The effect of a call -/

/-- What the completion of the pending proposal commits. -/
def Root.pendingEffect (root : Root) (hostOwned : Bool) :
    (Nat -> Option Page) -> Nat -> Option Page :=
  match root.pending with
  | none => id
  | some pending =>
    pending.request.commits (pending.createdFlags hostOwned) (pending.created hostOwned)

/-- What a call that is not refused does to the map. -/
def Call.effect (root : Root) : Call -> (Nat -> Option Page) -> Nat -> Option Page
  | importRow range prot flags backing => mapped range prot flags backing
  | complete _ => root.pendingEffect false
  | completeHostOwned _ => root.pendingEffect true
  | insertOpaqueBacked range prot flags backing =>
    mapped range prot (flags.difference .anonymous) backing
  | retireOpaque range => unmapped range
  | setFlags range set clear => attributed range set clear
  | _ => id

/-- The byte source that the completion of the pending proposal will map. -/
def Root.pendingSource (root : Root) : Option HostBackingIdentity :=
  root.pending.bind (fun pending => pending.created false)

/-- Growth in place leaves the word. -/
def Call.overgrows (root : Root) : Call -> Bool
  | mremap source newLen target =>
    root.growsInPlace source newLen target && root.sourceEndsWord source
  | _ => false

/-- A byte source is written by hand that ends before the pending range does. -/
def Call.writesShort (root : Root) : Call -> Bool
  | writePendingBacking backing => root.pending.any (fun pending =>
    decide (wordLimit + pageSize <= backing.offset + pending.request.range.len))
  | _ => false

/-- The source of the pending proposal is taken out of the retirement queue. -/
def Call.takesPending (root : Root) : Call -> Bool
  | takeRetiredHostBacking =>
    root.pendingSource.any (fun backing => decide (root.nextRetired = some backing.name))
  | _ => false

/-- The call neither grows a mapping past the word, nor gives the pending
proposal a source that is too short, nor takes its source away. -/
def Call.careful (root : Root) (call : Call) : Bool :=
  !call.overgrows root && !call.writesShort root && !call.takesPending root

/-! ## One call on a sound root -/

variable {root : Root}

theorem completeAs_edited (sound : Sound root) (request : ReservationRequest) (hostOwned : Bool) :
    Ends (Edited (root.pendingEffect hostOwned) root) (completeAs request hostOwned) root := by
  unfold Ends
  rcases completeAs_cases request hostOwned root with
    ⟨reason, ran, _⟩ | ⟨pending, has, authentic, _⟩
  · rw [ran]
    exact Edited.refused_here sound reason
  rcases completeAs_sound sound has authentic hostOwned with
    ⟨after, ran, soundAfter, settled, _, committed⟩
  rw [ran]
  refine ⟨⟨soundAfter, nofun, fun _ _ => ?_⟩, settled⟩
  unfold Root.pendingEffect
  rw [has]
  exact committed

theorem completeHostOwned_edited (sound : Sound root) (request : ReservationRequest) :
    Ends (Edited (root.pendingEffect true) root) (completeHostOwned request) root := by
  refine Ends.observe (Ends.require (Edited.refused_here sound _) (fun _ => ?_))
  exact completeAs_edited sound request true

theorem refusePending_sound (sound : Sound root) (request : ReservationRequest) :
    Ends (fun _ => Sound) (refusePending request) root := by
  refine Ends.observe (Ends.demand sound (fun pending _ => Ends.require sound (fun _ => ?_)))
  exact sound.withdraw (Steady.refl root)

theorem writePendingBacking_sound (sound : Sound root) {backing : HostBackingIdentity}
    (reaches : Call.writesShort root (.writePendingBacking backing) = false) :
    Ends (fun _ => Sound) (writePendingBacking backing) root := by
  cases has : root.pending with
  | none =>
    have refused : writePendingBacking backing root = (.error .stale, root) := by
      unfold writePendingBacking
      rw [observe_bind_apply, has]
      rfl
    unfold Ends
    rw [refused]
    exact sound
  | some pending =>
    cases nodes : pending.nodes with
    | nil =>
      have refused : writePendingBacking backing root = (.error .stale, root) := by
        unfold writePendingBacking
        rw [observe_bind_apply, has, demand_bind_some rfl, nodes]
        rfl
      unfold Ends
      rw [refused]
      exact sound
    | cons first others =>
      unfold Ends
      rcases writePendingBacking_cases backing sound.counted.index has nodes with
        ⟨reason, after, ran, _, steady, same⟩ | ⟨after, ran, steady, registered, written⟩
      · rw [ran]
        exact sound.same_pending steady same
      rw [ran]
      refine sound.steady steady (fun other hasOther => ?_)
      rw [written] at hasOther
      cases hasOther
      refine (sound.pending pending has).toPendingReady.written steady nodes registered ?_
      rintro source ⟨rfl⟩
      have enough : root.pending.any (fun pending => decide
          (wordLimit + pageSize <= backing.offset + pending.request.range.len)) = false :=
        reaches
      rw [has, Option.any_some, decide_eq_false_iff_not] at enough
      rw [pending.request.createdNode_len]
      omega

variable {α : Type} {command : Guarded α}

/-- A command that only changes the layout, the counters or the fork state. -/
theorem Edited.of_untouched (sound : Sound root) (untouched : Relates Untouched command) :
    Ends (Edited id root) command root :=
  Edited.of_steady sound (untouched root).steady ((untouched root).keepsSound sound) _

theorem untouched_edit {change : Root -> Root}
    (same : ∀ root, Untouched root (change root)) :
    Relates Untouched (edit change : Guarded Unit) := same

theorem configureImport_untouched (layout : Layout) :
    Relates Untouched (configureImport layout) := by
  refine Relates.observing (fun empty => ?_)
  refine Relates.requiring ?_
  exact untouched_edit (fun _ => ⟨rfl, rfl, rfl, rfl, rfl, rfl, rfl⟩)

theorem finishImport_untouched : Relates Untouched finishImport := by
  refine Relates.observing (fun admitted => ?_)
  refine Relates.requiring ?_
  refine Relates.bind secureHostNodes_relates (fun _ => ?_)
  refine Relates.bind admitNotifications_relates (fun _ => ?_)
  exact untouched_edit (fun _ => ⟨rfl, rfl, rfl, rfl, rfl, rfl, rfl⟩)

theorem setLimits_untouched (addressLimit dataLimit : Nat) :
    Relates Untouched (setLimits addressLimit dataLimit) :=
  untouched_edit (fun _ => ⟨rfl, rfl, rfl, rfl, rfl, rfl, rfl⟩)

theorem setExternalCharges_untouched (addressBytes dataBytes : Nat) :
    Relates Untouched (setExternalCharges addressBytes dataBytes) :=
  untouched_edit (fun _ => ⟨rfl, rfl, rfl, rfl, rfl, rfl, rfl⟩)

theorem nextTransferSequence_untouched : Relates Untouched nextTransferSequence := by
  refine Relates.observing (fun forking => ?_)
  refine Relates.requiring ?_
  refine Relates.observing (fun sequence => ?_)
  refine Relates.demanding (fun next => ?_)
  refine Relates.bind ?_ (fun _ => Relates.pure _)
  exact untouched_edit (fun _ => ⟨rfl, rfl, rfl, rfl, rfl, rfl, rfl⟩)

theorem beginForkPublication_untouched (sequence : Nat) :
    Relates Untouched (beginForkPublication sequence) := by
  refine Relates.observing (fun ready => ?_)
  refine Relates.requiring ?_
  refine Relates.bind ensureFamilyHeader_untouched (fun _ => ?_)
  exact untouched_edit (fun _ => ⟨rfl, rfl, rfl, rfl, rfl, rfl, rfl⟩)

theorem publishForkParent_untouched (sequence : Nat) :
    Relates Untouched (publishForkParent sequence) := by
  refine Relates.observing (fun excluded => ?_)
  refine Relates.requiring ?_
  refine Relates.observing (fun generation => ?_)
  refine Relates.demanding (fun next => ?_)
  refine Relates.bind ?_ (fun _ => Relates.pure _)
  exact untouched_edit (fun _ => ⟨rfl, rfl, rfl, rfl, rfl, rfl, rfl⟩)

theorem publishForkChild_untouched (sequence : Nat) :
    Relates Untouched (publishForkChild sequence) := by
  refine Relates.observing (fun ready => ?_)
  refine Relates.requiring ?_
  exact untouched_edit (fun _ => ⟨rfl, rfl, rfl, rfl, rfl, rfl, rfl⟩)

theorem finishForkPublication_untouched (sequence : Nat) :
    Relates Untouched (finishForkPublication sequence) := by
  refine Relates.observing (fun ready => ?_)
  refine Relates.requiring ?_
  exact untouched_edit (fun _ => ⟨rfl, rfl, rfl, rfl, rfl, rfl, rfl⟩)

theorem commitForkGeneration_untouched : Relates Untouched commitForkGeneration := by
  refine Relates.observing (fun generation => ?_)
  refine Relates.demanding (fun next => ?_)
  refine Relates.bind ?_ (fun _ => Relates.pure _)
  exact untouched_edit (fun _ => ⟨rfl, rfl, rfl, rfl, rfl, rfl, rfl⟩)

theorem answering_relates {relation : Root -> Root -> Prop} [IsPreorder Root relation]
    {answer : α -> Answer} (relates : Relates relation command) :
    Relates relation (answering answer command) :=
  Relates.bind relates (fun _ => Relates.pure _)

/-- The calls that only change the layout, the limits, the counters or the fork state. -/
def Call.aside : Call -> Bool
  | configureImport _ | finishImport | setLimits _ _ | setExternalCharges _ _
  | nextTransferSequence | beginForkPublication _ | publishForkParent _ | publishForkChild _
  | finishForkPublication _ | commitForkGeneration => true
  | _ => false

theorem run_untouched {call : Call} (aside : call.aside = true) : Relates Untouched call.run := by
  cases call with
  | configureImport layout => exact answering_relates (configureImport_untouched layout)
  | finishImport => exact answering_relates finishImport_untouched
  | setLimits addressLimit dataLimit =>
    exact answering_relates (setLimits_untouched addressLimit dataLimit)
  | setExternalCharges addressBytes dataBytes =>
    exact answering_relates (setExternalCharges_untouched addressBytes dataBytes)
  | nextTransferSequence => exact answering_relates nextTransferSequence_untouched
  | beginForkPublication sequence =>
    exact answering_relates (beginForkPublication_untouched sequence)
  | publishForkParent sequence => exact answering_relates (publishForkParent_untouched sequence)
  | publishForkChild sequence => exact answering_relates (publishForkChild_untouched sequence)
  | finishForkPublication sequence =>
    exact answering_relates (finishForkPublication_untouched sequence)
  | commitForkGeneration => exact answering_relates commitForkGeneration_untouched
  | _ => cases aside

/-- The calls that do nothing but propose. -/
def Call.proposes : Call -> Bool
  | mmap _ _ _ | munmap _ | mprotect _ _ | reserveRange _ | decommitRange _ | brk _ => true
  | _ => false

theorem run_tolerant {relation : Root -> Root -> Prop} [IsPreorder Root relation]
    (tolerant : Tolerant relation) {call : Call} (proposes : call.proposes = true) :
    Relates relation call.run := by
  cases call with
  | mmap placement len prot => exact answering_relates (mmap_relates tolerant placement len prot)
  | munmap range => exact answering_relates (munmap_relates tolerant range)
  | mprotect range prot => exact answering_relates (mprotect_relates tolerant range prot)
  | reserveRange range => exact answering_relates (reserveRange_relates tolerant range)
  | decommitRange range => exact answering_relates (decommitRange_relates tolerant range)
  | brk requested => exact answering_relates (brk_relates tolerant requested)
  | _ => cases proposes

theorem Call.effect_id {call : Call} (still : call.aside = true ∨ call.proposes = true) :
    call.effect root = id := by
  cases call <;> first | rfl | simp [Call.aside, Call.proposes] at still

/-- Whether a call works on the retirement queue itself. -/
def Call.queues : Call -> Bool
  | retireUnusedSource _ => true
  | takeRetiredHostBacking => true
  | _ => false

theorem run_edited (sound : Sound root) {call : Call} (careful : call.careful root = true)
    (other : call.queues = false) :
    Ends (Edited (call.effect root) root) call.run root := by
  unfold Call.careful at careful
  rw [Bool.and_eq_true, Bool.and_eq_true] at careful
  by_cases aside : call.aside = true
  · rw [call.effect_id (.inl aside)]
    exact Edited.of_untouched sound (run_untouched aside)
  by_cases proposes : call.proposes = true
  · rw [call.effect_id (.inr proposes)]
    exact Edited.of_relates sound (run_tolerant Tolerant.steady proposes)
      (run_tolerant Tolerant.sound proposes root sound)
  cases call with
  | importRow range prot flags backing =>
    exact Edited.answering (importRow_edited sound range prot flags backing)
  | mmapPrivateFile placement len prot backing =>
    exact Edited.answering (Edited.of_relates sound
      (mmapPrivateFile_steady placement len prot backing)
      (mmapPrivateFile_keepsSound placement len prot backing root sound))
  | mremap source newLen target =>
    refine Edited.answering (Edited.of_relates sound (mremap_steady source newLen target)
      (mremap_sound sound source newLen target ?_))
    intro grows
    have spared : (!(root.growsInPlace source newLen target && root.sourceEndsWord source)) = true :=
      careful.1.1
    rw [grows] at spared
    simpa using spared
  | complete request => exact Edited.answering (completeAs_edited sound request false)
  | completeHostOwned request => exact Edited.answering (completeHostOwned_edited sound request)
  | refusePending request =>
    exact Edited.answering (Edited.of_relates sound (refusePending_steady request)
      (refusePending_sound sound request))
  | insertOpaqueBacked range prot flags backing =>
    exact Edited.answering (insertOpaqueBacked_edited sound range prot flags backing)
  | retireOpaque range => exact Edited.answering (retireOpaque_edited sound range)
  | setFlags range set clear =>
    exact Edited.answering
      (Attributed.edited sound (setFlags_attributed sound.tidy range set clear))
  | writePendingBacking backing =>
    refine Edited.answering (Edited.of_relates sound (writePendingBacking_steady backing)
      (writePendingBacking_sound sound ?_))
    simpa using careful.1.2
  | retireUnusedSource name => cases other
  | takeRetiredHostBacking => cases other
  | _ => first | exact absurd rfl aside | exact absurd rfl proposes

theorem retireUnusedSource_performed (sound : Sound root) (name : SourceName) :
    Ends (Performed id root) (retireUnusedSource name) root := by
  unfold Ends
  rcases retireUnusedSource_cases sound.counted.index name with
    ⟨reason, after, ran, steady, same⟩ | ⟨after, ran, requeued⟩
  · rw [ran]
    exact (Edited.of_error sound steady (sound.same_pending steady same) reason).toPerformed
  rw [ran]
  have tree := requeued.tree
  refine ⟨⟨tree ▸ sound.tidy, ⟨requeued.index, tree ▸ sound.counted.reaching, fun other => ?_⟩, ?_⟩,
    fun _ _ => tree, fun _ _ => by rw [tree]; rfl⟩
  · rw [requeued.counts, tree]
    exact sound.counted.counts other
  intro pending has
  have ok := sound.pending pending (requeued.pending ▸ has)
  refine ⟨⟨ok.mm.trans requeued.mm.symm, ok.counter, ?_⟩, fun file installs => ?_⟩
  · rw [Root.sparesRequired_congr tree]
    exact ok.spares
  · rcases ok.file file installs with ⟨backing, first, registered, reaches⟩
    exact ⟨backing, first, requeued.entries _ registered, reaches⟩

theorem takeRetiredHostBacking_performed (sound : Sound root)
    (spared : Call.takesPending root .takeRetiredHostBacking = false) :
    Ends (Performed id root) takeRetiredHostBacking root := by
  unfold Ends
  rcases takeRetiredHostBacking_spec sound.counted.index with ⟨after, ran, taken⟩
  rw [ran]
  have tree := taken.tree
  refine ⟨⟨tree ▸ sound.tidy, ⟨taken.index, tree ▸ sound.counted.reaching, fun other => ?_⟩, ?_⟩,
    fun _ _ => tree, fun _ _ => by rw [tree]; rfl⟩
  · rw [taken.counts, tree]
    exact sound.counted.counts other
  intro pending has
  have hadPending : root.pending = some pending := taken.pending ▸ has
  have ok := sound.pending pending hadPending
  refine ⟨⟨ok.mm.trans taken.mm.symm, ok.counter, ?_⟩, fun file installs => ?_⟩
  · rw [Root.sparesRequired_congr tree]
    exact ok.spares
  rcases ok.file file installs with ⟨backing, first, registered, reaches⟩
  refine ⟨backing, first, taken.entries _ ?_ registered, reaches⟩
  have recorded : root.pendingSource = some backing := by
    unfold Root.pendingSource Pending.created Pending.readsBacking
    rw [hadPending, Option.bind_some, createdFlags_file, file, installs]
    exact first
  have different : (root.pendingSource.any
      (fun backing => decide (root.nextRetired = some backing.name))) = false := spared
  rw [recorded, Option.any_some, decide_eq_false_iff_not] at different
  exact different

theorem Performed.answering {effect : (Nat -> Option Page) -> Nat -> Option Page}
    {answer : α -> Answer} (ends : Ends (Performed effect root) command root) :
    Ends (Performed effect root) (answering answer command) root := by
  refine Ends.bind (fun reason after ran => ?_) (fun value after ran => ?_)
  · have performed := ends.of_eq ran
    exact ⟨performed.sound, fun _ _ => performed.refused reason rfl, nofun⟩
  · have performed := ends.of_eq ran
    exact ⟨performed.sound, nofun,
      fun _ _ => performed.committed value rfl⟩

/-- Every careful call on a sound root keeps it sound, commits its effect when
it answers, and leaves the tree alone when it refuses. -/
theorem run_performed (sound : Sound root) {call : Call} (careful : call.careful root = true) :
    Ends (Performed (call.effect root) root) call.run root := by
  cases queue : call.queues with
  | false => exact (run_edited sound careful queue).toPerformed
  | true =>
    unfold Call.careful at careful
    rw [Bool.and_eq_true, Bool.and_eq_true] at careful
    cases call with
    | retireUnusedSource name => exact Performed.answering (retireUnusedSource_performed sound name)
    | takeRetiredHostBacking =>
      refine Performed.answering (takeRetiredHostBacking_performed sound ?_)
      simpa using careful.2
    | _ => cases queue

/-! ## Reachable roots -/

/-- A root right after its slot was claimed, before the import. -/
structure Root.Claimed (root : Root) : Prop where
  tree : root.tree = .leaf
  sources : root.sources = .leaf
  retired : root.retired = []
  pending : root.pending = none
  minted : root.minted = 0
  retiredBelow : root.retiredBelow = 0

theorem Root.Claimed.sound (claimed : root.Claimed) : Sound root := by
  have noEntry : ∀ name, root.sourceFind name = none := by
    intro name
    unfold Root.sourceFind
    rw [claimed.sources]
    rfl
  refine ⟨claimed.tree ▸ Tidy.leaf, ⟨⟨?_, ?_, ?_⟩, ?_, ?_⟩, ?_⟩
  · rw [claimed.sources]
    exact List.Pairwise.nil
  · rw [claimed.retired]
    exact List.nodup_nil
  · intro name
    rw [claimed.retired, noEntry]
    simp
  · intro node member
    rw [claimed.tree] at member
    cases member
  · intro name
    unfold Root.sourceRefCount
    rw [noEntry, claimed.tree]
    rfl
  · intro pending has
    rw [claimed.pending] at has
    cases has

theorem within_untouched (root : Root) (around : Surroundings) :
    Untouched root (root.within around) :=
  ⟨rfl, rfl, rfl, rfl, rfl, rfl, rfl⟩

/-- The roots that claims, allowed calls and forks lead to.  A fork takes two
reachable roots, the parent and the empty child. -/
inductive Reachable (allowed : Root -> Event -> Prop) : Root -> Prop
  | claimed {root : Root} (claimed : root.Claimed) : Reachable allowed root
  | called {before : Root} (earlier : Reachable allowed before) {event : Event}
      (allows : allowed before event) : Reachable allowed (event.run before).2
  | forked {parent child after : Root} (ofParent : Reachable allowed parent)
      (ofChild : Reachable allowed child) {parentAround childAround : Surroundings}
      (cloned : cloneInto (parent.within parentAround) (child.within childAround) = (.ok (), after)) :
      Reachable allowed after

/-- The three conditions, in the surroundings of the call. -/
def Event.careful (root : Root) (event : Event) : Prop :=
  event.call.careful (root.within event.around) = true

instance (root : Root) (event : Event) : Decidable (event.careful root) :=
  inferInstanceAs (Decidable (_ = true))

theorem Event.performed (sound : Sound root) {event : Event} (careful : event.careful root) :
    Performed (event.call.effect (root.within event.around)) root (event.run root).1
      (event.run root).2 :=
  let performed := run_performed ((within_untouched root event.around).keepsSound sound) careful
  ⟨performed.sound, performed.refused, performed.committed⟩

theorem Reachable.sound {allowed : Root -> Event -> Prop}
    (careful : ∀ before event, allowed before event -> event.careful before)
    (reachable : Reachable allowed root) : Sound root := by
  induction reachable with
  | claimed claimed => exact claimed.sound
  | called _ allows ih =>
    exact (Event.performed ih (careful _ _ allows)).sound
  | forked _ _ cloned parentHypothesis childHypothesis =>
    have spec := (cloneInto_cloned _ _).of_eq cloned rfl
    exact (spec.sound ((within_untouched _ _).keepsSound parentHypothesis)
      ((within_untouched _ _).keepsSound childHypothesis)).1

/-! ## The committed map -/

/-- The calls through which an imported root is used: proposals, completions
and refusals, and the host's edits. -/
def Call.listed : Call -> Bool
  | retireUnusedSource _ => false
  | takeRetiredHostBacking => false
  | writePendingBacking _ => false
  | _ => true

/-- A listed call that does not grow a byte source behind the end of the word. -/
def Event.inWord (root : Root) (event : Event) : Prop :=
  event.call.listed = true ∧ event.call.overgrows (root.within event.around) = false

instance (root : Root) (event : Event) : Decidable (event.inWord root) :=
  inferInstanceAs (Decidable (_ ∧ _))

theorem Event.inWord.careful {event : Event} (inWord : event.inWord root) :
    event.careful root := by
  rcases event with ⟨call, around⟩
  rcases inWord with ⟨listed, grows⟩
  dsimp only at listed grows
  unfold Event.careful Call.careful
  dsimp only
  rw [grows]
  cases call with
  | retireUnusedSource name => cases listed
  | takeRetiredHostBacking => cases listed
  | writePendingBacking backing => cases listed
  | _ => rfl

/-- The call changes the map by its effect when it answers, and not at all
when it refuses. -/
def CommitsExactly (root : Root) (event : Event) : Prop :=
  (∀ reason, (event.run root).1 = .error reason ->
    pages (event.run root).2.tree = pages root.tree) ∧
  ∀ answer, (event.run root).1 = .ok answer ->
    pages (event.run root).2.tree =
      event.call.effect (root.within event.around) (pages root.tree)

/-- On every root that such calls lead to, every such call edits the map
exactly as its request says. -/
theorem reachable_commits_exactly {root : Root}
    (reachable : Reachable (fun before event => event.inWord before) root) {event : Event}
    (inWord : event.inWord root) : CommitsExactly root event := by
  have sound := reachable.sound (fun _ _ allowed => allowed.careful)
  have performed := Event.performed sound inWord.careful
  refine ⟨fun reason refused => ?_, performed.committed⟩
  rw [performed.refused reason refused]

/-! ## A concrete root -/

/-- Run a list of events in order. -/
def runAll : List Event -> Root -> Root
  | [], root => root
  | event :: rest, root => runAll rest (event.run root).2

theorem runAll_append (earlier later : List Event) (root : Root) :
    runAll (earlier ++ later) root = runAll later (runAll earlier root) := by
  induction earlier generalizing root with
  | nil => rfl
  | cons event rest ih => exact ih _

/-- Every event of a list is allowed in the root it finds. -/
def allowedAll (allowed : Root -> Event -> Prop) : List Event -> Root -> Prop
  | [], _ => True
  | event :: rest, root => allowed root event ∧ allowedAll allowed rest (event.run root).2

instance instDecidableAllowedAll (allowed : Root -> Event -> Prop) [∀ root event, Decidable (allowed root event)] :
    (events : List Event) -> (root : Root) -> Decidable (allowedAll allowed events root)
  | [], _ => inferInstanceAs (Decidable True)
  | event :: rest, root =>
    have := instDecidableAllowedAll allowed rest (event.run root).2
    inferInstanceAs (Decidable (_ ∧ _))

theorem reachable_runAll {allowed : Root -> Event -> Prop} {events : List Event}
    (start : Reachable allowed root) (allows : allowedAll allowed events root) :
    Reachable allowed (runAll events root) := by
  induction events generalizing root with
  | nil => exact start
  | cons event rest ih => exact ih (start.called allows.1) allows.2

theorem allowedAll_true (events : List Event) (root : Root) :
    allowedAll (fun _ _ => True) events root := by
  induction events generalizing root with
  | nil => trivial
  | cons event rest ih => exact ⟨trivial, ih _⟩

/-- A claimed root with a heap at `0x4000000000` and an arena at `0x6000000000`. -/
def emptyRoot : Root where
  mm := 7
  generation := 1
  sequence := 0
  familyHeader := false
  forkCertificate := 0
  tree := .leaf
  sources := .leaf
  retired := []
  layout :=
    { heap := ⟨0x4000000000, 0x4008000000, by decide, by decide, by decide, by decide⟩
      arena := ⟨0x6000000000, 0x6800000000, by decide, by decide, by decide, by decide⟩
      policy := ⟨0x4000000000, wordLimit - 1, wordLimit - 1, 0, 0⟩ }
  pending := none
  admitted := false
  forkPending := false
  minted := 0
  retiredBelow := 0
  around := ⟨[], [], [], 0, 0, .ok ()⟩

theorem emptyRoot_claimed : emptyRoot.Claimed := ⟨rfl, rfl, rfl, rfl, rfl, rfl⟩

/-- Surroundings whose first spare still holds a byte source. -/
def withLeftover (leftover : Option HostBackingIdentity) : Surroundings where
  supply := ⟨leftover⟩ :: List.replicate 8 ⟨none⟩
  prepared := []
  owed := []
  table := 0
  index := 0
  notifications := .ok ()

/-- Pages `first` up to `last` of the example arena. -/
def arenaPages (first last : Nat) (ordered : first < last) (within : last <= 1000000) :
    ReservationRange where
  start := 0x6000000000 + first * pageSize
  stop := 0x6000000000 + last * pageSize
  ordered := by unfold pageSize; omega
  start_aligned := by unfold pageSize; omega
  stop_aligned := by unfold pageSize; omega
  in_word := by unfold pageSize wordLimit; omega

def firstArenaPage : ReservationRange := arenaPages 0 1 (by decide) (by decide)

def secondArenaPage : ReservationRange := arenaPages 1 2 (by decide) (by decide)

def thirdArenaPage : ReservationRange := arenaPages 2 3 (by decide) (by decide)

def firstThreePages : ReservationRange := arenaPages 0 3 (by decide) (by decide)

/-- The last page of a byte source of 2^64 bytes. -/
def lastPageOf (handle : Nat) (named : handle ≠ 0) : HostBackingIdentity :=
  ⟨⟨handle, 1, named, by decide⟩, wordLimit - pageSize, by decide⟩

/-- A request of the example root. -/
def requested (generation sequence : Nat) (range : ReservationRange)
    (operation : ReservationOperation) (source : Option ReservationRange) : ReservationRequest :=
  ⟨7, generation, sequence, range, .readWrite, operation, source⟩

/-- Growing the mapping of a last page in place is refused, and the proposal
it leaves behind is completed with the byte source that a spare held before.
The pages of that node have no source of their own, so that moving one of them
over another mapping fails after both were unmapped. -/
def overgrowth : List Event :=
  let first := arenaPages 0 1 (by decide) (by decide)
  let growth := arenaPages 1 3 (by decide) (by decide)
  let other := arenaPages 1000 1001 (by decide) (by decide)
  let moved := arenaPages 2 3 (by decide) (by decide)
  let plain := withLeftover none
  [⟨.finishImport, plain⟩,
    ⟨.mmapPrivateFile (.fixed first.start) 4095 .readWrite (lastPageOf 1 (by decide)), plain⟩,
    ⟨.complete (requested 1 1 first .prepare none), plain⟩,
    ⟨.mmap (.fixed other.start) 4096 .readWrite, plain⟩,
    ⟨.complete (requested 2 2 other .prepare none), plain⟩,
    ⟨.mmapPrivateFile .anywhere 4095 .readWrite (lastPageOf 2 (by decide)), plain⟩,
    ⟨.refusePending (requested 3 3 (arenaPages 1 2 (by decide) (by decide)) .prepare none), plain⟩,
    ⟨.mremap first 12288 .inPlace, withLeftover (some (lastPageOf 2 (by decide)))⟩,
    ⟨.complete (requested 3 4 growth .prepare none), plain⟩,
    ⟨.mremap moved 4096 (.fixed other.start), withLeftover (some (lastPageOf 3 (by decide)))⟩]

/-- The completion that fails half way. -/
def overgrownMove : Event :=
  ⟨.complete (requested 4 5 (arenaPages 1000 1001 (by decide) (by decide)) .move
    (some (arenaPages 2 3 (by decide) (by decide)))), withLeftover none⟩

/-- The completion answers `stale` and has unmapped its target. -/
theorem overgrown_move_half_commits :
    ∃ root event, Reachable (fun _ event => event.call.listed = true) root ∧
      event.call.listed = true ∧ ¬ CommitsExactly root event := by
  refine ⟨runAll overgrowth emptyRoot, overgrownMove, ?_, by decide, ?_⟩
  · exact reachable_runAll (.claimed emptyRoot_claimed) (by decide +kernel)
  rintro ⟨refused, _⟩
  have stale : (overgrownMove.run (runAll overgrowth emptyRoot)).1 = .error .stale := by
    decide +kernel
  have same := congrFun (refused .stale stale) 0x60003E8000
  have mapped : pages (runAll overgrowth emptyRoot).tree 0x60003E8000 ≠ none := by decide +kernel
  have gone : pages (overgrownMove.run (runAll overgrowth emptyRoot)).2.tree 0x60003E8000 = none := by
    decide +kernel
  exact mapped (same.symm.trans gone)

/-- An anonymous page that is proposed and completed in the imported root. -/
theorem one_page_commits_exactly :
    CommitsExactly
      (runAll [⟨.finishImport, withLeftover none⟩,
        ⟨.mmap (.fixed 0x6000000000) 4096 .readWrite, withLeftover none⟩] emptyRoot)
      ⟨.complete (requested 1 1 (arenaPages 0 1 (by decide) (by decide)) .prepare none),
        withLeftover none⟩ := by
  refine reachable_commits_exactly (reachable_runAll (.claimed emptyRoot_claimed) ?_) ?_
  · decide +kernel
  · decide +kernel

/-! ## A completion cannot fail -/

/-- Every completion that authenticates the pending request of the root goes
through, and no allowed call edits the tree and then refuses. -/
def CommitsWhole (allowed : Root -> Event -> Prop) (root : Root) : Prop :=
  (∀ pending request around, root.pending = some pending ->
    root.authenticates pending request = true ->
    (Event.run ⟨.complete request, around⟩ root).1 = .ok (.value pending.result) ∧
    (pending.request.operation = .prepare ->
      (Event.run ⟨.completeHostOwned request, around⟩ root).1 = .ok (.value pending.result))) ∧
  ∀ event reason, allowed root event -> (event.run root).1 = .error reason ->
    (event.run root).2.tree = root.tree

theorem answering_of_ok {answer : α -> Answer} {after : Root} {value : α}
    (ran : command root = (.ok value, after)) :
    answering answer command root = (.ok (answer value), after) :=
  (bind_of_ok ran).trans rfl

/-- On every root that careful calls lead to, a completion that authenticates the
pending request goes through, and no call edits the tree and then refuses. -/
theorem reachable_commits_whole {root : Root}
    (reachable : Reachable (fun before event => event.careful before) root) :
    CommitsWhole (fun before event => event.careful before) root := by
  have sound := reachable.sound (fun _ _ allowed => allowed)
  refine ⟨fun pending request around has authentic => ?_, fun event reason careful refused => ?_⟩
  · have soundHere := (within_untouched root around).keepsSound sound
    have hasHere : (root.within around).pending = some pending := has
    have authenticHere : (root.within around).authenticates pending request = true := authentic
    rcases completeAs_sound soundHere hasHere authenticHere false with ⟨after, ran, _⟩
    rcases completeAs_sound soundHere hasHere authenticHere true with ⟨afterHost, ranHost, _⟩
    refine ⟨congrArg Prod.fst (answering_of_ok ran), fun prepares => ?_⟩
    have ranOwned : completeHostOwned request (root.within around) =
        (.ok pending.result, afterHost) := by
      unfold completeHostOwned
      rw [observe_bind_apply, hasHere, require_bind_true (by simp [prepares])]
      exact ranHost
    exact congrArg Prod.fst (answering_of_ok ranOwned)
  · exact (Event.performed sound careful).refused reason refused

/-- A byte source that is mapped at the start of the example arena. -/
def mappedSource : HostBackingIdentity := ⟨⟨1, 1, by decide, by decide⟩, 0, by decide⟩

/-- The source is mapped and unmapped, so that it waits in the queue; then it is
proposed again over an anonymous page. -/
def revival : List Event :=
  let first := arenaPages 0 1 (by decide) (by decide)
  let plain := withLeftover none
  [⟨.finishImport, plain⟩,
    ⟨.mmapPrivateFile (.fixed first.start) 4096 .readWrite mappedSource, plain⟩,
    ⟨.complete (requested 1 1 first .prepare none), plain⟩,
    ⟨.munmap first, plain⟩,
    ⟨.complete ⟨7, 2, 2, first, .none, .retire, none⟩, plain⟩,
    ⟨.mmap (.fixed first.start) 4096 .readWrite, plain⟩,
    ⟨.complete (requested 3 3 first .prepare none), plain⟩,
    ⟨.mmapPrivateFile (.fixed first.start) 4096 .readWrite mappedSource, plain⟩]

/-- Taking the queued source drops the entry that the pending proposal needs,
and its completion unmaps the page and then fails. -/
theorem taken_source_half_commits :
    ∃ root pending request around, Reachable (fun _ _ => True) root ∧ root.admitted = true ∧
      root.pending = some pending ∧ root.authenticates pending request = true ∧
      (Root.checkedNext root.generation).isSome = true ∧
      (Event.run ⟨.complete request, around⟩ root).1 = .error .stale ∧
      (Event.run ⟨.complete request, around⟩ root).2.tree ≠ root.tree := by
  refine ⟨runAll (revival ++ [⟨.takeRetiredHostBacking, withLeftover none⟩]) emptyRoot,
    ⟨requested 4 4 (arenaPages 0 1 (by decide) (by decide)) .prepare none, 0x6000000000,
      0x4000000000, ReservationNodeFlags.privateMap.union .file, [⟨some mappedSource⟩]⟩,
    requested 4 4 (arenaPages 0 1 (by decide) (by decide)) .prepare none, withLeftover none,
    reachable_runAll (.claimed emptyRoot_claimed) (allowedAll_true _ _), ?_, ?_, ?_, ?_, ?_, ?_⟩
  · decide +kernel
  · decide +kernel
  · decide +kernel
  · decide +kernel
  · decide +kernel
  · decide +kernel

/-- The same proposal without the queue being asked in between. -/
theorem revived_source_commits_whole :
    Reachable (fun before event => event.careful before) (runAll revival emptyRoot) ∧
    CommitsWhole (fun before event => event.careful before) (runAll revival emptyRoot) := by
  have reachable : Reachable (fun before event => event.careful before)
      (runAll revival emptyRoot) :=
    reachable_runAll (.claimed emptyRoot_claimed) (by decide +kernel)
  exact ⟨reachable, reachable_commits_whole reachable⟩

/-! ## Forks -/

theorem cloneInto_refused (parent child : Root) :
    Ends (fun answer after => SameMap child after ∨ answer = .ok ()) (cloneInto parent) child := by
  have same := SameMap.refl child
  refine Ends.observe (Ends.require (.inl same) (fun _ => ?_))
  refine Ends.require (.inl same) (fun _ => Ends.require (.inl same) (fun _ => Ends.observe
    (Ends.require (.inl same) (fun _ => Ends.observe (Ends.demand (.inl same) (fun _ _ => ?_))))))
  refine Ends.bind (fun _ _ ran => .inl ((secureHostNodes_eq ran).symm ▸ same)) (fun _ _ ran => ?_)
  rw [secureHostNodes_eq ran]
  refine Ends.bind (fun _ _ refused => .inl ?_) (fun _ _ _ => .inr rfl)
  have kept := Relates.bind (copyNodes_sameMap (parent.tree.preorder.filter Node.inherits))
    (fun _ => Relates.bind secureHostNodes_relates (fun _ => admitNotifications_relates)) child
  unfold discardingSources at refused
  split at refused
  · cases refused
  · rename_i ended
    rw [ended] at kept
    cases refused
    exact ⟨⟨kept.mm, kept.generation, kept.sequence, kept.layout, kept.pending, kept.admitted,
      kept.forkPending⟩, kept.tree, kept.minted, kept.retiredBelow⟩

theorem cells_inherited {parent after : Root} (tidy : Tidy parent.tree) (copied : Tidy after.tree)
    (nodes : after.tree.toList = parent.inherited) (address : Nat) :
    cells after.tree address =
      (cells parent.tree address).filter (fun cell => !cell.flags.contains .dontfork) := by
  have member : ∀ {node}, node ∈ after.tree.toList <->
      node ∈ parent.tree.toList ∧ node.inherits = true := fun {node} => nodes ▸ List.mem_filter
  cases found : cells parent.tree address with
  | none =>
    exact cells_eq_none_iff.mpr fun node inChild =>
      cells_eq_none_iff.mp found node (member.mp inChild).1
  | some cell =>
    rcases exists_of_cells found with ⟨node, inParent, covers, rfl⟩
    rw [Option.filter_some]
    split_ifs with inherits
    · exact cells_of_mem copied (member.mpr ⟨inParent, inherits⟩) covers
    · refine cells_eq_none_iff.mpr fun other inChild coversToo => inherits ?_
      rw [<- tidy.holder_unique (member.mp inChild).1 inParent coversToo covers]
      exact (member.mp inChild).2

/-- A fork between roots that careful calls and forks lead to gives the child
the inherited pages of its parent and exact source counts, or leaves the
child's map as it was. -/
theorem fork_copies_inherited_pages {parent child : Root}
    (ofParent : Reachable (fun before event => event.careful before) parent)
    (ofChild : Reachable (fun before event => event.careful before) child)
    (parentAround childAround : Surroundings) :
    let forked := cloneInto (parent.within parentAround) (child.within childAround)
    (forked.1 = .ok () -> Sound forked.2 ∧ forked.2.admitted = true ∧ forked.2.pending = none ∧
      ∀ address, cells forked.2.tree address =
        (cells parent.tree address).filter (fun cell => !cell.flags.contains .dontfork)) ∧
    (forked.1 ≠ .ok () -> SameMap (child.within childAround) forked.2) := by
  refine ⟨fun ended => ?_, (cloneInto_refused _ _).resolve_right⟩
  have cloned := cloneInto_cloned _ _ ended
  have parentSound := ofParent.sound (fun _ _ careful => careful)
  have sound := (cloned.sound ((within_untouched _ _).keepsSound parentSound)
    ((within_untouched _ _).keepsSound (ofChild.sound (fun _ _ careful => careful)))).1
  exact ⟨sound, cloned.admitted, cloned.pending,
    cells_inherited parentSound.tidy sound.tidy cloned.nodes⟩

/-- The child of a parent with one page. -/
theorem fork_copies_one_page :
    let parent := runAll [⟨.finishImport, withLeftover none⟩,
      ⟨.mmap (.fixed 0x6000000000) 4096 .readWrite, withLeftover none⟩,
      ⟨.complete (requested 1 1 firstArenaPage .prepare none), withLeftover none⟩] emptyRoot
    Sound (cloneInto (parent.within (withLeftover none))
      (emptyRoot.within { withLeftover none with index := 1 })).2 :=
  ((fork_copies_inherited_pages (reachable_runAll (.claimed emptyRoot_claimed) (by decide +kernel))
    (.claimed emptyRoot_claimed) (withLeftover none) { withLeftover none with index := 1 }).1
    (by decide +kernel)).1

end Reservation
end Carrick
