import Carrick.Reservation.Proposals

namespace Carrick
namespace Reservation

open Foundation
open Command

/-!
# Remapping with a byte source

An `mremap` of a file mapping proposes a node whose bytes continue those of
the source.  The continuation is written after the proposal was recorded, so
that a proposal without a source would stay behind if this failed.  It fails
only for growth in place behind the end of the word; every other remap ends
with the source written or the proposal taken back.
-/

/-- Whether an `mremap` extends its source in place. -/
def Root.growsInPlace (root : Root) (source : ReservationRange) (newLen : Nat)
    (target : MoveTarget) : Bool :=
  target.fixedAddress.isNone && !target.keepsSource && (roundPages newLen).any (fun rounded =>
    decide (source.len < rounded) && (root.growthRange source rounded).isSome)

/-- Whether the byte source of a range leaves the word right behind it. -/
def Root.sourceEndsWord (root : Root) (source : ReservationRange) : Bool :=
  (root.sourceOf source).any (fun backing => (backing.advance source.len).isNone)

/-! ## The mapping at an address -/

variable {node : Node}

theorem holding_of_mem {address : Nat} {tree : MappingTree} (tidy : Tidy tree)
    (member : node ∈ tree.toList) (covers : node.covers address) :
    Root.nodeAt.holding address tree = some node := by
  induction tree with
  | leaf => cases member
  | node left element cached right leftHypothesis rightHypothesis =>
    have apart := tidy.apart
    rw [SearchTree.toList_node, List.pairwise_append, List.pairwise_cons] at apart
    have tidyLeft : Tidy left := ⟨apart.1, fun other inside =>
      tidy.formed other (List.mem_append_left _ inside)⟩
    have tidyRight : Tidy right := ⟨apart.2.1.2, fun other inside =>
      tidy.formed other (List.mem_append_right _ (List.mem_cons_of_mem _ inside))⟩
    have ordered := (tidy.formed element
      (List.mem_append_right _ List.mem_cons_self)).ordered
    unfold Root.nodeAt.holding
    unfold Node.covers at covers
    rcases List.mem_append.mp member with onLeft | here
    · have below := apart.2.2 node onLeft element List.mem_cons_self
      rw [if_pos (by omega)]
      exact leftHypothesis tidyLeft onLeft
    rcases List.mem_cons.mp here with same | onRight
    · rw [<- same, if_neg (by omega), if_neg (by omega)]
    · have above := apart.2.1.1 node onRight
      rw [if_neg (by omega), if_pos (by omega)]
      exact rightHypothesis tidyRight onRight

theorem mem_of_holding {address : Nat} {tree : MappingTree}
    (found : Root.nodeAt.holding address tree = some node) : node ∈ tree.toList := by
  induction tree with
  | leaf => cases found
  | node left element cached right leftHypothesis rightHypothesis =>
    unfold Root.nodeAt.holding at found
    rw [SearchTree.toList_node]
    split at found
    · exact List.mem_append_left _ (leftHypothesis found)
    · split at found
      · exact List.mem_append_right _ (List.mem_cons_of_mem _ (rightHypothesis found))
      · cases found
        exact List.mem_append_right _ List.mem_cons_self

variable {root : Root}

theorem extendRun_keeps {stop fuel : Nat} {run found : Node}
    (extended : root.extendRun stop fuel run = some found) :
    found.start = run.start ∧ found.flags = run.flags ∧ found.hostBacking = run.hostBacking := by
  induction fuel generalizing run with
  | zero =>
    unfold Root.extendRun at extended
    split at extended
    · cases extended
    · cases extended
      exact ⟨rfl, rfl, rfl⟩
  | succ fuel ih =>
    unfold Root.extendRun at extended
    split at extended
    · split at extended
      · cases extended
      · have kept := ih extended
        exact kept
    · cases extended
      exact ⟨rfl, rfl, rfl⟩

variable {source : ReservationRange}

theorem runCovering_eq_some (tidy : Tidy root.tree) (admitted : root.admitted = true) {run : Node}
    (found : root.runCovering source = some run) :
    ∃ node ∈ root.tree.toList, node.covers source.start ∧
      root.nodeAt source.start = some node ∧ run.flags = node.flags ∧
      run.hostBacking = node.hostBacking := by
  unfold Root.runCovering at found
  split at found
  · cases found
  rename_i node searched
  rcases Option.filter_eq_some_iff.mp searched with ⟨next, starts⟩
  rcases next_eq_some tidy next with ⟨member, reaches, _⟩
  have covers : node.covers source.start := ⟨of_decide_eq_true starts, reaches⟩
  rcases extendRun_keeps found with ⟨_, flags, backing⟩
  refine ⟨node, member, covers, ?_, flags, backing⟩
  unfold Root.nodeAt
  rw [if_pos admitted]
  exact holding_of_mem tidy member covers

variable {backing : HostBackingIdentity}

/-- The byte source at the start of a range of a node that reaches its last page. -/
theorem sourceOf_of_node (tidy : Tidy root.tree) (reaching : Reaching root.tree)
    (member : node ∈ root.tree.toList) (covers : node.covers source.start)
    (here : root.nodeAt source.start = some node) (has : node.hostBacking = some backing) :
    ∃ moved, root.sourceOf source = some moved ∧ moved.name = backing.name := by
  have reach := reaching node member backing has
  have formed := tidy.formed node member
  have advances : (backing.advance (source.start - node.start)).isSome = true := by
    rw [HostBackingIdentity.advance_isSome_iff]
    have startAligned := source.start_aligned
    have aligned := formed.start_aligned
    have stopAligned := formed.stop_aligned
    unfold Node.covers at covers
    unfold Node.len at reach
    unfold pageSize at *
    omega
  rcases Option.isSome_iff_exists.mp advances with ⟨moved, answer⟩
  refine ⟨moved, ?_, (HostBackingIdentity.advance_eq_some answer).1⟩
  unfold Root.sourceOf
  rw [here, Option.bind_some, has, Option.bind_some, answer]

theorem sourceOf_registered (tidy : Tidy root.tree) (counted : Counted root)
    (found : root.sourceOf source = some backing) :
    (root.sourceFind backing.name).isSome = true := by
  unfold Root.sourceOf at found
  rcases Option.bind_eq_some_iff.mp found with ⟨node, here, rest⟩
  rcases Option.bind_eq_some_iff.mp rest with ⟨base, has, advanced⟩
  have member : node ∈ root.tree.toList := by
    unfold Root.nodeAt at here
    split at here
    · exact mem_of_holding here
    · cases here
  have weight : node.weight backing.name = node.len := by
    unfold Node.weight
    rw [has, Option.map_some, (HostBackingIdentity.advance_eq_some advanced).1, if_pos rfl]
  have held : 0 < root.sourceRefCount backing.name := by
    have kept := total_erase tidy member backing.name
    have ordered := (tidy.formed node member).ordered
    rw [counted.counts, kept, weight]
    unfold Node.len
    omega
  rcases find_of_refCount held with ⟨entry, present, _⟩
  rw [present]
  rfl

/-! ## The proposals of a remap -/

/-- How a proposal of `mremap` depends on the mapping it starts from. -/
structure Remaps (root : Root) (source : ReservationRange) (newLen : Nat) (target : MoveTarget)
    (proposal : ReservationProposal) : Prop where
  admitted : root.admitted = true
  mapping : proposal.operation.installs = true -> ∃ node, root.runCovering source = some node ∧
    node.rootEditable = true ∧ proposal.flags = node.flags
  grows : proposal.operation.installs = true -> proposal.result = source.start ->
    proposal.range.start = source.stop -> root.growsInPlace source newLen target = true

/-- An `mremap` records such a proposal, or records nothing. -/
def Remapped (root : Root) (source : ReservationRange) (newLen : Nat) (target : MoveTarget)
    (answer : Except Refusal Decision) (after : Root) : Prop :=
  (Untouched root after ∧ ∀ request, answer ≠ .ok (.work request)) ∨
  ∃ proposal request, answer = .ok (.work request) ∧ Proposed proposal root after request ∧
    Remaps root source newLen target proposal

variable {proposal : ReservationProposal}

theorem propose_remapped {newLen : Nat} {target : MoveTarget}
    (remaps : Remaps root source newLen target proposal) :
    Ends (Remapped root source newLen target) (propose proposal) root := by
  rcases propose_cases proposal root with
    ⟨reason, after, ran, untouched⟩ | ⟨request, after, ran, proposed⟩
  · unfold Ends
    rw [ran]
    exact .inl ⟨untouched, nofun⟩
  · unfold Ends
    rw [ran]
    exact .inr ⟨proposal, request, rfl, proposed, remaps⟩

theorem mremapInner_remapped (root : Root) (source : ReservationRange) (newLen : Nat)
    (target : MoveTarget) :
    Ends (Remapped root source newLen target) (mremapInner source newLen target) root := by
  have refused : ∀ reason, Remapped root source newLen target (.error reason) root :=
    fun reason => .inl ⟨Untouched.refl root, nofun⟩
  refine Ends.observe (Ends.require (refused _) (fun admitted => ?_))
  refine Ends.observe (Ends.require (refused _) (fun _ => ?_))
  refine Ends.require (refused _) (fun _ => Ends.demand (refused _) (fun rounded isRounded => ?_))
  refine Ends.require (refused _) (fun _ => Ends.observe (Ends.demand (refused _) ?_))
  intro node covering
  refine Ends.require (refused _) (fun editable => Ends.observe ?_)
  have moves : ∀ range, Remaps root source newLen target
      (moveProposal source node root.brk target range) := by
    intro range
    refine ⟨admitted, fun _ => ⟨node, covering, editable, rfl⟩, fun _ atStart behind => ?_⟩
    have ordered := source.ordered
    have same : range.start = source.start := atStart
    have other : range.start = source.stop := behind
    omega
  cases fixed : target.fixedAddress with
  | some address =>
    refine Ends.demand (refused _) (fun range _ => Ends.require (refused _) (fun _ => ?_))
    exact propose_remapped (moves range)
  | none =>
    dsimp only
    split
    · exact .inl ⟨Untouched.refl root, nofun⟩
    rename_i notEqual
    split
    · refine Ends.demand (refused _) (fun tail _ => ?_)
      exact propose_remapped ⟨admitted, nofun, nofun⟩
    rename_i notShorter
    refine Ends.observe ?_
    cases growth : (root.growthRange source rounded).filter (fun _ => !target.keepsSource) with
    | some extension =>
      refine propose_remapped ⟨admitted, fun _ => ⟨node, covering, editable, rfl⟩, ?_⟩
      intro _ _ _
      rcases Option.filter_eq_some_iff.mp growth with ⟨found, moving⟩
      rw [Bool.not_eq_true'] at moving
      have longer : source.len < rounded := by
        by_contra within
        rcases Nat.lt_or_eq_of_le (not_lt.mp within) with shorter | equal
        · exact notShorter ⟨moving, shorter⟩
        · exact notEqual ⟨moving, equal⟩
      unfold Root.growsInPlace
      rw [fixed, isRounded, moving]
      simp [longer, found]
    | none =>
      refine Ends.require (refused _) (fun _ => Ends.observe (Ends.demand (refused _) ?_))
      intro address _
      refine Ends.demand (refused _) (fun range _ => ?_)
      exact propose_remapped (moves range)

/-! ## The byte source of a remap -/

/-- The source of a file mapping is known before the remap is proposed. -/
theorem Remaps.sourceOf (sound : Sound root) {newLen : Nat} {target : MoveTarget}
    (remaps : Remaps root source newLen target proposal) (needs : proposal.needsSource = true) :
    ∃ backing, root.sourceOf source = some backing := by
  unfold ReservationProposal.needsSource at needs
  rw [Bool.and_eq_true] at needs
  rcases remaps.mapping needs.2 with ⟨run, covering, editable, flags⟩
  rcases runCovering_eq_some sound.tidy remaps.admitted covering with
    ⟨node, member, covers, here, _, sameBacking⟩
  unfold Node.rootEditable at editable
  rw [<- flags, needs.1, sameBacking] at editable
  have held : node.hostBacking.isSome = true := by simpa using (Bool.and_eq_true_iff.mp editable).2
  rcases Option.isSome_iff_exists.mp held with ⟨backing, has⟩
  rcases sourceOf_of_node sound.tidy sound.counted.reaching member covers here has with
    ⟨moved, found, _⟩
  exact ⟨moved, found⟩

/-- The proposal of a remap gets the source of the remapped range, unless its
growth leaves the word. -/
theorem carryBacking_sound {middle : Root} (sound : Sound root) {request : ReservationRequest}
    (proposed : Proposed proposal root middle request)
    (installs : proposal.operation.installs = true) (found : root.sourceOf source = some backing)
    (carries : (carriedBacking source backing proposal.result request).isSome = true) :
    Ends (fun _ => Sound) (carryBacking source backing request) middle := by
  rcases proposed.first_spare installs with ⟨first, others, recorded⟩
  have ready := proposed.ready recorded
  have counted := proposed.toSteady.counted sound.counted
  rcases Option.isSome_iff_exists.mp carries with ⟨carried, isCarried⟩
  have sameName : carried.name = backing.name := by
    unfold carriedBacking at isCarried
    split at isCarried
    · exact (HostBackingIdentity.advance_eq_some isCarried).1
    · cases isCarried
      rfl
  have registered : (middle.sourceFind carried.name).isSome = true := by
    rw [sameName]
    exact (proposed.toSteady.sources sound.counted.index).entries _
      (sourceOf_registered sound.tidy sound.counted found)
  unfold Ends carryBacking
  rw [observe_bind_apply, recorded, Option.map_some, demand_bind_some rfl]
  dsimp only
  rw [demand_bind_some isCarried]
  split
  · rw [bind_of_ok (refusePending_of_pending recorded)]
    exact sound.withdraw proposed.toSteady
  rename_i reachable
  have advances : (carried.advance request.range.len).isSome = true := by
    simpa [Option.isNone_iff_eq_none, Option.isSome_iff_ne_none] using reachable
  rcases writePendingBacking_cases carried counted.index recorded rfl with
    ⟨reason, failed, ran, absent, _⟩ | ⟨written, ran, steady, present, pendingWritten⟩
  · rw [absent] at registered
    cases registered
  rw [ran]
  refine sound.steady (Steady.trans _ _ _ proposed.toSteady steady) ?_
  intro pending has
  rw [pendingWritten] at has
  cases has
  refine ready.written steady rfl present ?_
  rintro other ⟨rfl⟩
  have inside := HostBackingIdentity.advance_isSome_iff.mp advances
  rw [request.createdNode_len]
  omega

theorem carryBacking_steady (source : ReservationRange) (backing : HostBackingIdentity)
    (request : ReservationRequest) : Relates Steady (carryBacking source backing request) := by
  refine Relates.observing (fun found => ?_)
  refine Relates.demanding (fun result => ?_)
  refine Relates.demanding (fun carried => ?_)
  split
  · refine Relates.bind (refusePending_steady request) (fun _ => ?_)
    exact Relates.refuse _
  · exact writePendingBacking_steady carried

theorem mremapInner_steady (source : ReservationRange) (newLen : Nat) (target : MoveTarget) :
    Relates Steady (mremapInner source newLen target) := by
  intro root
  rcases mremapInner_remapped root source newLen target with
    ⟨untouched, _⟩ | ⟨proposal, request, _, proposed, _⟩
  · exact untouched.steady
  · exact proposed.toSteady

theorem mremap_steady (source : ReservationRange) (newLen : Nat) (target : MoveTarget) :
    Relates Steady (mremap source newLen target) := by
  refine Relates.observing (fun backing => ?_)
  refine Relates.bind (mremapInner_steady source newLen target) (fun decision => ?_)
  split
  · split
    · refine Relates.bind (carryBacking_steady source _ _) (fun _ => ?_)
      exact Relates.pure _
    · exact Relates.pure _
  · exact Relates.pure _

/-- A remap keeps the invariant unless it grows a source in place behind the
end of the word. -/
theorem mremap_sound (sound : Sound root) (source : ReservationRange) (newLen : Nat)
    (target : MoveTarget)
    (safe : root.growsInPlace source newLen target = true -> root.sourceEndsWord source = false) :
    Ends (fun _ => Sound) (mremap source newLen target) root := by
  have inner := mremapInner_remapped root source newLen target
  refine Ends.observe (Ends.bind (fun reason after ran => ?_) (fun decision middle ran => ?_))
  · rcases inner.of_eq ran with ⟨untouched, _⟩ | ⟨_, _, wrong, _⟩
    · exact untouched.keepsSound sound
    · cases wrong
  rcases inner.of_eq ran with ⟨untouched, other⟩ | ⟨proposal, request, same, proposed, remaps⟩
  · have kept : Sound middle := untouched.keepsSound sound
    cases decision with
    | work request => exact absurd rfl (other request)
    | complete value => cases root.sourceOf source <;> exact kept
  cases same
  have sourceless : proposal.needsSource = false -> Sound middle := fun noSource =>
    sound.steady proposed.toSteady (fun pending has => proposed.pendingOk has noSource)
  cases found : root.sourceOf source with
  | none =>
    refine sourceless ?_
    cases needs : proposal.needsSource with
    | false => rfl
    | true =>
      rcases remaps.sourceOf sound needs with ⟨backing, has⟩
      rw [found] at has
      cases has
  | some backing =>
    dsimp only
    split
    · rename_i creating
      have installs : proposal.operation.installs = true := proposed.operation ▸ creating
      refine Ends.answer (carryBacking_sound sound proposed installs found ?_)
      unfold carriedBacking
      split
      · rename_i growth
        have grows := remaps.grows installs growth.1 (proposed.range ▸ growth.2)
        have inWord := safe grows
        unfold Root.sourceEndsWord at inWord
        rw [found] at inWord
        simpa [Option.isNone_iff_eq_none, Option.isSome_iff_ne_none] using inWord
      · rfl
    · rename_i idle
      refine sourceless ?_
      unfold ReservationProposal.needsSource
      rw [<- proposed.operation, Bool.eq_false_iff.mpr idle, Bool.and_false]

end Reservation
end Carrick
