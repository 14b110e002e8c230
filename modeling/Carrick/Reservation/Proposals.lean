import Carrick.Reservation.Commit

namespace Carrick
namespace Reservation

open Foundation
open Command

/-!
# What a proposal records

Every call other than a completion or a host edit leaves the committed side of
its root alone.  A proposal that is admitted records a request with enough
spares for the splits it may need and, for a file mapping, the byte source of
the node to create.  `PendingOk` says what a completion relies on, and `Sound`
is the invariant of a root that carries it together with the exact counts.
-/

/-! ## Steady commands -/

/-- The index counts and queues the same, and lost no entry. -/
structure SameCounts (before after : Root) : Prop where
  index : IndexOk after
  counts : ∀ name, after.sourceRefCount name = before.sourceRefCount name
  awaits : ∀ name, after.awaitsRetirement name <-> before.awaitsRetirement name
  entries : KeepsEntries before after

/-- The committed side of the root is unchanged, apart from entries without
bytes that may have been added to the index. -/
structure Steady (before after : Root) : Prop where
  mm : after.mm = before.mm
  tree : after.tree = before.tree
  minted : after.minted = before.minted
  retiredBelow : after.retiredBelow = before.retiredBelow
  sources : IndexOk before -> SameCounts before after

theorem Steady.refl (root : Root) : Steady root root :=
  ⟨rfl, rfl, rfl, rfl,
    fun index => ⟨index, fun _ => rfl, fun _ => Iff.rfl, KeepsEntries.refl root⟩⟩

theorem Steady.trans (first second third : Root) (earlier : Steady first second)
    (later : Steady second third) : Steady first third := by
  refine ⟨later.mm.trans earlier.mm, later.tree.trans earlier.tree,
    later.minted.trans earlier.minted, later.retiredBelow.trans earlier.retiredBelow,
    fun index => ?_⟩
  have middle := earlier.sources index
  have last := later.sources middle.index
  exact ⟨last.index, fun name => (last.counts name).trans (middle.counts name),
    fun name => (last.awaits name).trans (middle.awaits name),
    KeepsEntries.trans _ _ _ middle.entries last.entries⟩

instance : IsPreorder Root Steady where
  refl := Steady.refl
  trans := Steady.trans

variable {before after : Root}

theorem SameCounts.of_sameIndex (index : IndexOk before) (same : SameIndex before after) :
    SameCounts before after := by
  refine ⟨index.congr same, same.refCount, fun name => awaitsRetirement_congr (same.find name), ?_⟩
  intro name found
  rw [same.find]
  exact found

/-- Nothing but the layout, the counters, the fork state, the header and the
node supply changed. -/
structure Untouched (before after : Root) : Prop where
  mm : after.mm = before.mm
  tree : after.tree = before.tree
  minted : after.minted = before.minted
  retiredBelow : after.retiredBelow = before.retiredBelow
  pending : after.pending = before.pending
  same_index : SameIndex before after

theorem Untouched.refl (root : Root) : Untouched root root :=
  ⟨rfl, rfl, rfl, rfl, rfl, SameIndex.refl root⟩

theorem Untouched.trans (first second third : Root) (earlier : Untouched first second)
    (later : Untouched second third) : Untouched first third :=
  ⟨later.mm.trans earlier.mm, later.tree.trans earlier.tree, later.minted.trans earlier.minted,
    later.retiredBelow.trans earlier.retiredBelow, later.pending.trans earlier.pending,
    SameIndex.trans _ _ _ earlier.same_index later.same_index⟩

instance : IsPreorder Root Untouched where
  refl := Untouched.refl
  trans := Untouched.trans

theorem Untouched.steady (untouched : Untouched before after) :
    Steady before after :=
  ⟨untouched.mm, untouched.tree, untouched.minted, untouched.retiredBelow,
    fun index => SameCounts.of_sameIndex index untouched.same_index⟩

theorem SameMap.untouched (same : SameMap before after) (index : SameIndex before after) :
    Untouched before after :=
  ⟨same.mm, same.tree, same.minted, same.retiredBelow, same.pending, index⟩

theorem hostNode_untouched : Relates Untouched hostNode :=
  fun root => (hostNode_sameMap root).untouched (hostNode_sameIndex root)

theorem allocateSpares_untouched (needed : Nat) : Relates Untouched (allocateSpares needed) :=
  fun root => (allocateSpares_sameMap needed root).untouched (allocateSpares_sameIndex needed root)

theorem ensureFamilyHeader_untouched : Relates Untouched ensureFamilyHeader :=
  fun root => (ensureFamilyHeader_sameMap root).untouched (ensureFamilyHeader_sameIndex root)

theorem Registered.keepsEntries {name : SourceName} (registered : Registered name before after) :
    KeepsEntries before after := by
  intro other found
  rcases Option.isSome_iff_exists.mp found with ⟨entry, present⟩
  rw [registered.find present]
  rfl

theorem sourceReserve_steady (name : SourceName) : Relates Steady (sourceReserve name) := by
  intro root
  have same := sourceReserve_sameMap name root
  refine ⟨same.mm, same.tree, same.minted, same.retiredBelow, fun index => ?_⟩
  have registered := (sourceReserve_spec index name).1
  exact ⟨registered.index, registered.refCount, registered.awaitsRetirement,
    registered.keepsEntries⟩

/-! ## The invariant -/

/-- A proposal made for this root, with the spares its completion may take, so
that the completion cannot run out of them. -/
structure PendingReady (root : Root) (pending : Pending) : Prop where
  mm : pending.request.mm = root.mm
  counter : (Root.checkedNext pending.request.generation).isSome = true
  spares : root.sparesRequired pending.request <= pending.nodes.length

/-- What the completion of a pending proposal relies on: for a file mapping,
also a registered byte source that reaches the last page. -/
structure PendingOk (root : Root) (pending : Pending) : Prop extends PendingReady root pending where
  file : pending.flags.contains .file = true -> pending.request.operation.installs = true ->
    ∃ backing, pending.firstSpare = some backing ∧
      (root.sourceFind backing.name).isSome = true ∧
      (pending.request.createdNode pending.flags (some backing)).Reaches

/-- The committed tree is tidy, the index counts its bytes exactly, and a
pending proposal can be completed. -/
structure Sound (root : Root) : Prop where
  tidy : Tidy root.tree
  counted : Counted root
  pending : ∀ pending, root.pending = some pending -> PendingOk root pending

theorem Root.sparesRequired_congr (tree : after.tree = before.tree) (request : ReservationRequest) :
    after.sparesRequired request = before.sparesRequired request := by
  have splits : after.splitsNeeded = before.splitsNeeded := by
    funext range
    unfold Root.splitsNeeded Root.straddles Root.next
    rw [tree]
  unfold Root.sparesRequired
  rw [splits]

theorem Steady.counted (steady : Steady before after) (counted : Counted before) :
    Counted after := by
  have same := steady.sources counted.index
  refine ⟨same.index, steady.tree ▸ counted.reaching, fun name => ?_⟩
  rw [same.counts, steady.tree]
  exact counted.counts name

variable {pending : Pending}

theorem PendingReady.steady (steady : Steady before after) (ready : PendingReady before pending) :
    PendingReady after pending := by
  refine ⟨ready.mm.trans steady.mm.symm, ready.counter, ?_⟩
  rw [Root.sparesRequired_congr steady.tree]
  exact ready.spares

theorem PendingOk.steady (steady : Steady before after) (index : IndexOk before)
    (ok : PendingOk before pending) : PendingOk after pending := by
  refine ⟨ok.toPendingReady.steady steady, fun file installs => ?_⟩
  rcases ok.file file installs with ⟨backing, first, registered, reaches⟩
  exact ⟨backing, first, (steady.sources index).entries _ registered, reaches⟩

theorem Sound.steady (sound : Sound before) (steady : Steady before after)
    (pending : ∀ pending, after.pending = some pending -> PendingOk after pending) :
    Sound after :=
  ⟨steady.tree ▸ sound.tidy, steady.counted sound.counted, pending⟩

theorem Sound.same_pending (sound : Sound before) (steady : Steady before after)
    (same : after.pending = before.pending) : Sound after := by
  refine sound.steady steady (fun pending has => ?_)
  exact (sound.pending pending (same ▸ has)).steady steady sound.counted.index

/-! ## Recording a proposal -/

variable {root : Root}

theorem allocateSpares_length {needed : Nat} {nodes : List SpareNode}
    (ran : allocateSpares needed root = (.ok nodes, after)) : nodes.length = needed := by
  induction needed generalizing root after nodes with
  | zero =>
    cases ran
    rfl
  | succ needed ih =>
    rcases bind_eq_ok ran with ⟨node, middle, _, rest⟩
    rcases bind_eq_ok rest with ⟨others, last, taken, made⟩
    cases made
    rw [List.length_cons, ih taken]

/-- What an admitted proposal leaves behind. -/
structure Proposed (proposal : ReservationProposal) (before after : Root)
    (request : ReservationRequest) : Prop extends Steady before after where
  excluded : before.pending = none
  same_index : SameIndex before after
  range : request.range = proposal.range
  protection : request.protection = proposal.protection
  operation : request.operation = proposal.operation
  source : request.source = proposal.source
  mm_eq : request.mm = before.mm
  counter : (Root.checkedNext request.generation).isSome = true
  recorded : ∃ nodes, nodes.length = before.sparesFor proposal ∧
    after.pending = some ⟨request, proposal.result, proposal.policyValue, proposal.flags, nodes⟩

variable {proposal : ReservationProposal}

theorem checkProposal_excludes (checked : checkProposal root proposal = .ok ()) :
    root.pending = none := by
  unfold checkProposal at checked
  by_cases admitted : root.admitted = false
  · simp [admitted] at checked
    cases checked
  cases has : root.pending with
  | none => rfl
  | some pending =>
    simp [admitted, has] at checked
    cases checked

theorem propose_cases (proposal : ReservationProposal) (root : Root) :
    (∃ reason after, propose proposal root = (.error reason, after) ∧ Untouched root after) ∨
    ∃ request after, propose proposal root = (.ok (.work request), after) ∧
      Proposed proposal root after request := by
  unfold propose
  rw [observe_bind_apply]
  cases checked : checkProposal root proposal with
  | error reason =>
    exact .inl ⟨reason, root, ofExcept_bind_error rfl _ root, Untouched.refl root⟩
  | ok done =>
    have excluded := checkProposal_excludes checked
    rw [ofExcept_bind_ok rfl, observe_bind_apply]
    cases sequenceNext : Root.checkedNext root.sequence with
    | none => exact .inl ⟨.stale, root, demand_bind_none rfl _ _ root, Untouched.refl root⟩
    | some sequence =>
      rw [demand_bind_some rfl, observe_bind_apply]
      cases generationNext : Root.checkedNext root.generation with
      | none => exact .inl ⟨.stale, root, demand_bind_none rfl _ _ root, Untouched.refl root⟩
      | some generation =>
        rw [demand_bind_some rfl, observe_bind_apply]
        have untouched := allocateSpares_untouched (root.sparesFor proposal) root
        have sameMap := allocateSpares_sameMap (root.sparesFor proposal) root
        cases allocated : allocateSpares (root.sparesFor proposal) root with
        | mk answer middle =>
          rw [allocated] at untouched sameMap
          cases answer with
          | error reason =>
            exact .inl ⟨reason, middle, bind_of_error allocated, untouched⟩
          | ok nodes =>
            have counter : (Root.checkedNext middle.generation).isSome = true := by
              rw [sameMap.generation, generationNext]
              rfl
            refine .inr ⟨⟨middle.mm, middle.generation, sequence, proposal.range,
              proposal.protection, proposal.operation, proposal.source⟩, _,
              (bind_of_ok allocated).trans rfl, ?_⟩
            exact ⟨⟨untouched.mm, untouched.tree, untouched.minted,
              untouched.retiredBelow,
              fun index => SameCounts.of_sameIndex index untouched.same_index⟩,
              excluded, untouched.same_index, rfl, rfl, rfl, rfl, untouched.mm, counter,
              nodes, allocateSpares_length allocated, rfl⟩

theorem Root.splitsNeeded_le_two (root : Root) (range : ReservationRange) :
    root.splitsNeeded range <= 2 := by
  have first := Bool.toNat_le (root.straddles range.start)
  have second := Bool.toNat_le (root.straddles range.stop)
  unfold Root.splitsNeeded
  omega

variable {request : ReservationRequest}

/-- The spares reserved for a proposal are the ones its completion may take. -/
theorem Proposed.sparesRequired_le (proposed : Proposed proposal before after request) :
    after.sparesRequired request <= before.sparesFor proposal := by
  rw [Root.sparesRequired_congr proposed.tree]
  unfold Root.sparesRequired Root.sparesFor
  rw [proposed.source, proposed.range, proposed.operation]
  have onRange := before.splitsNeeded_le_two proposal.range
  have creating := Bool.toNat_le proposal.operation.creates
  cases proposal.source with
  | some source =>
    have onSource := before.splitsNeeded_le_two source
    simp only [Option.map_some, Option.getD_some, Option.isSome_some, if_true]
    omega
  | none =>
    have same : proposal.operation.creates = decide (proposal.operation ≠ .retire) := by
      cases proposal.operation <;> rfl
    simp [same]

theorem Proposed.ready (proposed : Proposed proposal before after request)
    (has : after.pending = some pending) : PendingReady after pending := by
  rcases proposed.recorded with ⟨nodes, count, recorded⟩
  rw [recorded] at has
  cases has
  refine ⟨proposed.mm_eq.trans proposed.mm.symm, proposed.counter, ?_⟩
  rw [count]
  exact proposed.sparesRequired_le

/-- Whether a proposal must have a byte source written before it is completed. -/
def ReservationProposal.needsSource (proposal : ReservationProposal) : Bool :=
  proposal.flags.contains .file && proposal.operation.installs

theorem Proposed.pendingOk (proposed : Proposed proposal before after request)
    (has : after.pending = some pending) (noSource : proposal.needsSource = false) :
    PendingOk after pending := by
  refine ⟨proposed.ready has, fun file installs => ?_⟩
  rcases proposed.recorded with ⟨nodes, count, recorded⟩
  rw [recorded] at has
  cases has
  unfold ReservationProposal.needsSource at noSource
  rw [<- proposed.operation, installs, file] at noSource
  cases noSource

/-- A command keeps the invariant. -/
def KeepsSound (before after : Root) : Prop := Sound before -> Sound after

theorem KeepsSound.refl (root : Root) : KeepsSound root root := fun sound => sound

theorem KeepsSound.trans (first second third : Root) (earlier : KeepsSound first second)
    (later : KeepsSound second third) : KeepsSound first third :=
  fun sound => later (earlier sound)

instance : IsPreorder Root KeepsSound where
  refl := KeepsSound.refl
  trans := KeepsSound.trans

theorem Untouched.keepsSound (untouched : Untouched before after) :
    KeepsSound before after :=
  fun sound => sound.same_pending untouched.steady untouched.pending

/-! ## The calls that only propose

Each of them checks and then proposes, so that it maintains every relation
which tolerates a change outside the map and a proposal without a byte source.
-/

theorem needsSource_of_noFile (noFile : proposal.flags.contains .file = false) :
    proposal.needsSource = false := by
  unfold ReservationProposal.needsSource
  rw [noFile]
  rfl

theorem anonymousPrivate_noFile :
    ReservationNodeFlags.anonymousPrivate.contains .file = false := by decide

theorem empty_noFile : ReservationNodeFlags.empty.contains .file = false := by decide

structure Tolerant (relation : Root -> Root -> Prop) : Prop where
  refl : ∀ root, relation root root
  trans : ∀ first second third,
    relation first second -> relation second third -> relation first third
  untouched : ∀ before after, Untouched before after -> relation before after
  propose : ∀ proposal, proposal.needsSource = false -> Relates relation (propose proposal)

theorem propose_steady (proposal : ReservationProposal) : Relates Steady (propose proposal) := by
  intro root
  rcases propose_cases proposal root with
    ⟨reason, after, ran, untouched⟩ | ⟨request, after, ran, proposed⟩
  · rw [ran]
    exact untouched.steady
  · rw [ran]
    exact proposed.toSteady

theorem Tolerant.steady : Tolerant Steady :=
  ⟨Steady.refl, Steady.trans, fun _ _ untouched => untouched.steady,
    fun proposal _ => propose_steady proposal⟩

theorem Tolerant.sound : Tolerant KeepsSound := by
  refine ⟨KeepsSound.refl, KeepsSound.trans, fun _ _ untouched => untouched.keepsSound, ?_⟩
  intro proposal noSource root sound
  rcases propose_cases proposal root with
    ⟨reason, after, ran, untouched⟩ | ⟨request, after, ran, proposed⟩
  · rw [ran]
    exact untouched.keepsSound sound
  · rw [ran]
    exact sound.steady proposed.toSteady (fun pending has => proposed.pendingOk has noSource)

theorem answerOldBreak_relates {relation : Root -> Root -> Prop} {command : Guarded Decision} (old : Nat)
    (relates : Relates relation command) : Relates relation (answerOldBreak old command) := by
  intro root
  have step := relates root
  unfold answerOldBreak
  split
  · rename_i ran
    rw [ran] at step
    exact step
  · rename_i ran
    rw [ran] at step
    exact step
  · exact step

section

variable {relation : Root -> Root -> Prop} [IsPreorder Root relation] (tolerant : Tolerant relation)

include tolerant

theorem mmap_relates (placement : Placement) (len : Nat) (prot : ReservationProtection) :
    Relates relation (mmap placement len prot) := by
  refine Relates.observing (fun excluded => ?_)
  refine Relates.requiring ?_
  refine Relates.observing (fun placed => ?_)
  refine Relates.bind (Relates.ofExcept _) (fun range => ?_)
  refine Relates.observing (fun brk => ?_)
  exact tolerant.propose _ (needsSource_of_noFile anonymousPrivate_noFile)

theorem munmap_relates (range : ReservationRange) : Relates relation (munmap range) := by
  refine Relates.observing (fun brk => ?_)
  exact tolerant.propose _ (needsSource_of_noFile empty_noFile)

theorem mprotect_relates (range : ReservationRange) (prot : ReservationProtection) :
    Relates relation (mprotect range prot) := by
  refine Relates.observing (fun brk => ?_)
  exact tolerant.propose _ (needsSource_of_noFile empty_noFile)

theorem reserveRange_relates (range : ReservationRange) :
    Relates relation (reserveRange range) := by
  refine Relates.observing (fun brk => ?_)
  exact tolerant.propose _ (needsSource_of_noFile anonymousPrivate_noFile)

theorem decommitRange_relates (range : ReservationRange) :
    Relates relation (decommitRange range) := by
  refine Relates.observing (fun brk => ?_)
  exact tolerant.propose _ (needsSource_of_noFile empty_noFile)

theorem setByteBreak_relates (requested : Nat) : Relates relation (setByteBreak requested) := by
  refine Relates.observing (fun generation => ?_)
  refine Relates.demanding (fun next => ?_)
  exact fun root => tolerant.untouched _ _ ⟨rfl, rfl, rfl, rfl, rfl, rfl, rfl⟩

theorem brk_relates (requested : Nat) : Relates relation (brk requested) := by
  refine Relates.observing (fun admitted => ?_)
  refine Relates.requiring ?_
  refine Relates.observing (fun excluded => ?_)
  refine Relates.requiring ?_
  refine Relates.observing (fun old => ?_)
  refine Relates.observing (fun heap => ?_)
  split
  · exact Relates.pure _
  refine Relates.demanding (fun oldStop => ?_)
  refine Relates.demanding (fun newStop => ?_)
  split
  · split
    · refine Relates.bind (setByteBreak_relates tolerant requested) (fun _ => ?_)
      exact Relates.pure _
    · exact Relates.pure _
  refine Relates.observing (fun blocked => ?_)
  split
  · exact Relates.pure _
  refine Relates.demanding (fun range => ?_)
  refine answerOldBreak_relates old ?_
  exact tolerant.propose _ (needsSource_of_noFile anonymousPrivate_noFile)

end

/-! ## Proposals with a byte source -/

/-- Writing the byte source of the pending proposal registers it. -/
theorem writePendingBacking_cases (backing : HostBackingIdentity) (index : IndexOk root)
    {first : SpareNode} {others : List SpareNode} (has : root.pending = some pending)
    (nodes : pending.nodes = first :: others) :
    (∃ reason after, writePendingBacking backing root = (.error reason, after) ∧
      root.sourceFind backing.name = none ∧ Steady root after ∧
      after.pending = root.pending) ∨
    ∃ after, writePendingBacking backing root = (.ok (), after) ∧ Steady root after ∧
      (after.sourceFind backing.name).isSome = true ∧
      after.pending = some { pending with nodes := ⟨some backing⟩ :: others } := by
  have steady := sourceReserve_steady backing.name root
  have same := sourceReserve_sameMap backing.name root
  have registers := (sourceReserve_spec index backing.name).2
  have start : writePendingBacking backing root =
      (do
        sourceReserve backing.name
        edit (fun root =>
          { root with pending := some { pending with nodes := ⟨some backing⟩ :: others } }) :
        Guarded Unit) root := by
    unfold writePendingBacking
    rw [observe_bind_apply, has, demand_bind_some rfl, nodes]
  rw [start]
  cases reserved : sourceReserve backing.name root with
  | mk answer middle =>
    rw [reserved] at steady same registers
    cases answer with
    | error reason =>
      refine .inl ⟨reason, middle, bind_of_error reserved, ?_, steady, same.pending⟩
      cases found : root.sourceFind backing.name with
      | none => rfl
      | some entry =>
        rw [sourceReserve_of_find found] at reserved
        cases reserved
    | ok done =>
      refine .inr ⟨_, (bind_of_ok reserved).trans rfl, ?_, registers rfl, rfl⟩
      exact ⟨steady.mm, steady.tree, steady.minted, steady.retiredBelow,
        fun index =>
          let sources := steady.sources index
          ⟨sources.index.congr ⟨rfl, rfl⟩, sources.counts, sources.awaits, sources.entries⟩⟩

/-- A proposal whose registered byte source reaches the last page can be completed. -/
theorem PendingReady.written {first : SpareNode} {others : List SpareNode}
    {backing : HostBackingIdentity} (ready : PendingReady before pending)
    (steady : Steady before after) (nodes : pending.nodes = first :: others)
    (registered : (after.sourceFind backing.name).isSome = true)
    (reaches : (pending.request.createdNode pending.flags (some backing)).Reaches) :
    PendingOk after { pending with nodes := ⟨some backing⟩ :: others } := by
  have same := ready.steady steady
  refine ⟨⟨same.mm, same.counter, ?_⟩, fun _ _ => ⟨backing, rfl, registered, reaches⟩⟩
  have enough := same.spares
  rw [nodes, List.length_cons] at enough
  rw [List.length_cons]
  exact enough

theorem refusePending_of_pending (has : root.pending = some pending) :
    refusePending pending.request root = (.ok (), { root with pending := none }) := by
  unfold refusePending
  rw [observe_bind_apply, has, demand_bind_some rfl, require_bind_true (by simp)]
  rfl

theorem orRefuse_eq_ok {α : Type} {found : Option α} {reason : Refusal} {value : α}
    (answered : orRefuse found reason = .ok value) : found = some value := by
  cases found with
  | none => cases answered
  | some other =>
    cases answered
    rfl

theorem place_len {placement : Placement} {len : Nat} {range : ReservationRange}
    (placed : place root placement len = .ok range) : roundPages len = some range.len := by
  unfold place at placed
  split at placed
  · cases placed
  split at placed
  · cases placed
  rcases except_bind_eq_ok placed with ⟨rounded, isRounded, rest⟩
  rcases except_bind_eq_ok rest with ⟨address, _, ranged⟩
  unfold placeRange at ranged
  rcases except_bind_eq_ok ranged with ⟨stop, added, made⟩
  rcases except_bind_eq_ok made with ⟨found, isRange, last⟩
  have bounds := ReservationRange.new_eq_some (orRefuse_eq_ok isRange)
  have sum := (checkedAdd_eq_some_iff.mp (orRefuse_eq_ok added)).1
  have same : found = range := by
    split at last
    · split at last
      · cases last
        rfl
      · cases last
    · cases last
      rfl
  rw [orRefuse_eq_ok isRounded, <- same]
  unfold ReservationRange.len
  rw [bounds.1, bounds.2, <- sum, Nat.add_sub_cancel_left]

theorem roundPages_lt {len rounded : Nat} (isRounded : roundPages len = some rounded) :
    rounded < len + pageSize := by
  unfold roundPages at isRounded
  rcases Option.map_eq_some_iff.mp isRounded with ⟨padded, added, same⟩
  have sum := (checkedAdd_eq_some_iff.mp added).1
  unfold pageSize at *
  omega

theorem Sound.withdraw {before after : Root} (sound : Sound before) (steady : Steady before after) :
    Sound { after with pending := none } := by
  refine ⟨steady.tree ▸ sound.tidy, ?_, nofun⟩
  have counted := steady.counted sound.counted
  exact ⟨counted.index.congr ⟨rfl, rfl⟩, counted.reaching, counted.counts⟩

theorem edit_pending_steady (change : Root -> Option Pending) :
    Relates Steady (edit (fun root => { root with pending := change root }) : Guarded Unit) :=
  fun _ => ⟨rfl, rfl, rfl, rfl, fun index => SameCounts.of_sameIndex index ⟨rfl, rfl⟩⟩

theorem writePendingBacking_steady (backing : HostBackingIdentity) :
    Relates Steady (writePendingBacking backing) := by
  refine Relates.observing (fun found => ?_)
  refine Relates.demanding (fun pending => ?_)
  split
  · exact Relates.refuse _
  · refine Relates.bind (sourceReserve_steady _) (fun _ => ?_)
    exact edit_pending_steady _

theorem refusePending_steady (request : ReservationRequest) :
    Relates Steady (refusePending request) := by
  refine Relates.observing (fun found => ?_)
  refine Relates.demanding (fun pending => ?_)
  refine Relates.requiring ?_
  exact edit_pending_steady _

theorem writeOrRefuse_steady (backing : HostBackingIdentity) (request : ReservationRequest) :
    Relates Steady (writeOrRefuse backing request) := by
  intro root
  have step := writePendingBacking_steady backing root
  unfold writeOrRefuse
  split
  · rename_i ran
    rw [ran] at step
    exact step
  · rename_i refusal failed ran
    rw [ran] at step
    refine Steady.trans _ _ _ step (Relates.bind (refusePending_steady request) ?_ failed)
    exact fun _ => Relates.refuse _

theorem mmapPrivateFile_steady (placement : Placement) (len : Nat) (prot : ReservationProtection)
    (backing : HostBackingIdentity) :
    Relates Steady (mmapPrivateFile placement len prot backing) := by
  refine Relates.observing (fun excluded => ?_)
  refine Relates.requiring ?_
  refine Relates.requiring ?_
  refine Relates.observing (fun placed => ?_)
  refine Relates.bind (Relates.ofExcept _) (fun range => ?_)
  refine Relates.observing (fun brk => ?_)
  refine Relates.bind (propose_steady _) (fun decision => ?_)
  split
  · exact Relates.pure _
  · refine Relates.bind (writeOrRefuse_steady _ _) (fun _ => ?_)
    exact Relates.pure _

theorem ReservationRequest.createdNode_len (request : ReservationRequest)
    (flags : ReservationNodeFlags) (backing : Option HostBackingIdentity) :
    (request.createdNode flags backing).len = request.range.len := rfl

theorem propose_bind_ends {α : Type} {post : Except Refusal α -> Root -> Prop}
    {next : Decision -> Guarded α}
    (refused : ∀ reason after, Untouched root after -> post (.error reason) after)
    (rest : ∀ request middle, Proposed proposal root middle request -> Ends post (next
      (.work request)) middle) : Ends post (propose proposal >>= next) root := by
  refine Ends.bind (fun reason after ran => ?_) (fun decision middle ran => ?_)
  · rcases propose_cases proposal root with
      ⟨_, other, ranOther, untouched⟩ | ⟨request, other, ranOther, _⟩
    · rw [ran] at ranOther
      cases ranOther
      exact refused _ _ untouched
    · rw [ran] at ranOther
      cases ranOther
  rcases propose_cases proposal root with
    ⟨_, other, ranOther, _⟩ | ⟨request, other, ranOther, proposed⟩
  · rw [ran] at ranOther
    cases ranOther
  · rw [ran] at ranOther
    cases ranOther
    exact rest _ _ proposed

theorem Proposed.first_spare (proposed : Proposed proposal before after request)
    (installs : proposal.operation.installs = true) :
    ∃ first others, after.pending = some
      ⟨request, proposal.result, proposal.policyValue, proposal.flags, first :: others⟩ := by
  rcases proposed.recorded with ⟨nodes, count, recorded⟩
  have enough := (proposed.ready recorded).spares
  cases nodes with
  | cons first others => exact ⟨first, others, recorded⟩
  | nil =>
    unfold Root.sparesRequired at enough
    dsimp only at enough
    rw [proposed.operation, ReservationOperation.creates_of_installs installs] at enough
    simp at enough

theorem writeOrRefuse_sound {middle : Root} (sound : Sound before)
    (proposed : Proposed proposal before middle request)
    (installs : proposal.operation.installs = true) {backing : HostBackingIdentity}
    (reaches : (request.createdNode proposal.flags (some backing)).Reaches) :
    Ends (fun _ => Sound) (writeOrRefuse backing request) middle := by
  rcases proposed.first_spare installs with ⟨first, others, recorded⟩
  have ready := proposed.ready recorded
  have counted := proposed.toSteady.counted sound.counted
  unfold Ends writeOrRefuse
  rcases writePendingBacking_cases backing counted.index recorded rfl with
    ⟨reason, failed, ran, _, steady, same⟩ | ⟨written, ran, steady, registered, pendingWritten⟩
  · rw [ran]
    have withdrawn := refusePending_of_pending (same.trans recorded)
    dsimp only at withdrawn ⊢
    rw [bind_of_ok withdrawn]
    exact sound.withdraw (Steady.trans _ _ _ proposed.toSteady steady)
  rw [ran]
  refine sound.steady (Steady.trans _ _ _ proposed.toSteady steady) ?_
  intro pending has
  rw [pendingWritten] at has
  cases has
  exact ready.written steady rfl registered reaches

theorem mmapPrivateFile_keepsSound (placement : Placement) (len : Nat)
    (prot : ReservationProtection) (backing : HostBackingIdentity) :
    Relates KeepsSound (mmapPrivateFile placement len prot backing) := by
  intro root sound
  change Ends (fun _ => Sound) (mmapPrivateFile placement len prot backing) root
  refine Ends.observe (Ends.require sound (fun _ => Ends.require sound (fun advances => ?_)))
  refine Ends.observe (Ends.ofExcept (fun _ => sound) (fun range placed => Ends.observe ?_))
  refine propose_bind_ends (fun _ after untouched => untouched.keepsSound sound) ?_
  intro request middle proposed
  refine Ends.answer (writeOrRefuse_sound sound proposed rfl ?_)
  rintro other ⟨rfl⟩
  have short := roundPages_lt (place_len placed)
  have inside := HostBackingIdentity.advance_isSome_iff.mp advances
  rw [request.createdNode_len, proposed.range]
  dsimp only
  omega

end Reservation
end Carrick
