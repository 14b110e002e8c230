import Carrick.Foundation.BalancedTree
import Carrick.Reservation.Fault

namespace Carrick
namespace Reservation

open Foundation
open Command

/-!
# The shape of the two trees of a root

Every command changes the mapping tree by inserting and erasing nodes and the
source index by inserting, rewriting and unlinking entries, so both trees stay
balanced with true summaries, also through a call that is refused half way.
-/

theorem mappingSummary_countsLevels : mappingSummary.CountsLevels := by
  intro left node right
  cases left with
  | none =>
    cases right with
    | none => rfl
    | some upper => rfl
  | some lower =>
    cases right with
    | none => rfl
    | some upper => rfl

theorem sourceSummary_countsLevels : sourceSummary.CountsLevels := by
  intro left entry right
  cases left with
  | none =>
    cases right with
    | none => rfl
    | some upper => rfl
  | some lower =>
    cases right with
    | none => rfl
    | some upper => rfl

/-- Both trees are balanced and cache the truth about their subtrees. -/
structure Shaped (root : Root) : Prop where
  tree : root.tree.Balanced mappingSummary
  sources : root.sources.Balanced sourceSummary

def KeepsShape (before after : Root) : Prop := Shaped before -> Shaped after

namespace KeepsShape

theorem refl (root : Root) : KeepsShape root root := fun shaped => shaped

theorem trans (first second third : Root) (earlier : KeepsShape first second)
    (later : KeepsShape second third) : KeepsShape first third :=
  fun shaped => later (earlier shaped)

instance : IsPreorder Root KeepsShape where
  refl := refl
  trans := trans

theorem of_same {before after : Root} (tree : after.tree = before.tree)
    (sources : after.sources = before.sources) : KeepsShape before after := by
  intro shaped
  refine ⟨?_, ?_⟩
  · rw [tree]
    exact shaped.tree
  · rw [sources]
    exact shaped.sources

theorem of_untouched {before after : Root} (untouched : Untouched before after) :
    KeepsShape before after :=
  of_same untouched.tree untouched.same_index.1

theorem relates {α : Type} {command : Guarded α} (untouched : Relates Untouched command) :
    Relates KeepsShape command :=
  fun root => of_untouched (untouched root)

theorem edit_tree {change : Root -> Root} (sources : ∀ root, (change root).sources = root.sources)
    (balanced : ∀ root, root.tree.Balanced mappingSummary ->
      (change root).tree.Balanced mappingSummary) :
    Relates KeepsShape (edit change : Guarded Unit) := by
  intro root shaped
  refine ⟨balanced root shaped.tree, ?_⟩
  change (change root).sources.Balanced sourceSummary
  rw [sources root]
  exact shaped.sources

end KeepsShape

theorem insertNode_balanced (node : Node) {tree : MappingTree}
    (balanced : tree.Balanced mappingSummary) : (insertNode node tree).Balanced mappingSummary :=
  (balanced.insert mappingSummary_countsLevels node).1

theorem eraseNode_balanced (start : Nat) {tree : MappingTree}
    (balanced : tree.Balanced mappingSummary) : (eraseNode start tree).Balanced mappingSummary :=
  (balanced.erase mappingSummary_countsLevels start).1

/-! ## Byte sources -/

section Commands

variable {α : Type}

theorem sourceReserve_keepsShape (name : SourceName) : Relates KeepsShape (sourceReserve name) := by
  refine Relates.observing (fun present => ?_)
  split
  · exact Relates.pure _
  refine Relates.bind (KeepsShape.relates ensureFamilyHeader_untouched)
    (fun _ => ?_)
  refine Relates.bind (KeepsShape.relates hostNode_untouched) (fun _ => ?_)
  exact fun root shaped =>
    ⟨shaped.tree, (shaped.sources.insert sourceSummary_countsLevels _).1⟩

theorem writeSource_keepsShape (entry : SourceEntry) : Relates KeepsShape (writeSource entry) := by
  intro root shaped
  refine ⟨shaped.tree, ?_⟩
  have unseen : ∀ left (value : SourceEntry) right,
      sourceSummary.fix left { value with count := entry.count, queued := entry.queued } right =
        sourceSummary.fix left value right := fun _ _ _ => rfl
  exact (shaped.sources.modify entry.rank unseen).1

theorem KeepsShape.kept : KeptByRemoval KeepsShape := by
  refine ⟨⟨writeSource_keepsShape, fun _ _ => KeepsShape.of_same rfl rfl⟩, fun _ _ => ?_, fun _ => ?_⟩
  · exact KeepsShape.edit_tree (fun _ => rfl) (fun _ balanced =>
      insertNode_balanced _ (insertNode_balanced _ (eraseNode_balanced _ balanced)))
  · exact KeepsShape.edit_tree (fun _ => rfl) (fun _ balanced => eraseNode_balanced _ balanced)

theorem takeRetiredFrom_keepsShape (queue : List SourceName) :
    Relates KeepsShape (takeRetiredFrom queue) := by
  induction queue with
  | nil => exact Relates.pure _
  | cons name rest ih =>
    refine Relates.bind (fun _ => KeepsShape.of_same rfl rfl) (fun _ => ?_)
    refine Relates.observing (fun found => ?_)
    refine Relates.demanding (fun entry => ?_)
    split
    · exact Relates.bind (writeSource_keepsShape _)
        (fun _ => ih)
    · refine Relates.bind ?_ (fun _ => Relates.pure _)
      exact fun root shaped =>
        ⟨shaped.tree, (shaped.sources.unlink sourceSummary_countsLevels name.rank).1⟩

theorem takeRetiredHostBacking_keepsShape : Relates KeepsShape takeRetiredHostBacking :=
  Relates.bind (Relates.observe _)
    (fun queue => takeRetiredFrom_keepsShape queue)

/-! ## Edits of the mapping tree -/

theorem joinLeft_keepsShape (node : Node) : Relates KeepsShape (joinLeft node) := by
  refine Relates.observing (fun found => ?_)
  split
  · exact Relates.pure _
  · refine Relates.bind ?_ (fun _ => Relates.pure _)
    exact KeepsShape.edit_tree (fun _ => rfl) (fun _ balanced => eraseNode_balanced _ balanced)

theorem joinRight_keepsShape (node : Node) : Relates KeepsShape (joinRight node) := by
  refine Relates.observing (fun found => ?_)
  split
  · exact Relates.pure _
  · refine Relates.bind ?_ (fun _ => Relates.pure _)
    exact KeepsShape.edit_tree (fun _ => rfl) (fun _ balanced => eraseNode_balanced _ balanced)

theorem insertCoalescing_keepsShape (node : Node) : Relates KeepsShape (insertCoalescing node) := by
  refine Relates.bind (joinLeft_keepsShape node) (fun widened => ?_)
  refine Relates.bind (joinRight_keepsShape widened) (fun complete => ?_)
  exact KeepsShape.edit_tree (fun _ => rfl) (fun _ balanced => insertNode_balanced _ balanced)

theorem replaceNode_keepsShape (start : Nat) (node : Node) {next : Guarded α}
    (onward : Relates KeepsShape next) :
    Relates KeepsShape (do
      edit (fun root : Root => { root with tree := eraseNode start root.tree })
      insertCoalescing node
      next) := by
  refine Relates.bind ?_ (fun _ => ?_)
  · exact KeepsShape.edit_tree (fun _ => rfl) (fun _ balanced => eraseNode_balanced _ balanced)
  · exact Relates.bind (insertCoalescing_keepsShape node) (fun _ => onward)

theorem reprotectNodes_keepsShape (range : ReservationRange) (prot : ReservationProtection)
    (fuel : Nat) : ∀ cursor, Relates KeepsShape (reprotectNodes range prot fuel cursor) := by
  induction fuel with
  | zero => exact fun _ => Relates.pure _
  | succ fuel ih =>
    intro cursor
    rw [reprotectNodes]
    split
    · refine Relates.observing (fun found => ?_)
      split
      · exact Relates.pure _
      · exact replaceNode_keepsShape _ _ (ih _)
    · exact Relates.pure _

theorem rewriteFlags_keepsShape (range : ReservationRange) (set clear : ReservationNodeFlags)
    (fuel : Nat) : ∀ cursor, Relates KeepsShape (rewriteFlags range set clear fuel cursor) := by
  induction fuel with
  | zero => exact fun _ => Relates.pure _
  | succ fuel ih =>
    intro cursor
    rw [rewriteFlags]
    split
    · refine Relates.observing (fun found => ?_)
      split
      · exact Relates.pure _
      · dsimp only
        split
        · exact replaceNode_keepsShape _ _ (ih _)
        · exact ih _
    · exact Relates.pure _

theorem reprotectRange_keepsShape (range : ReservationRange) (prot : ReservationProtection)
    (spares : List SpareNode) : Relates KeepsShape (reprotectRange range prot spares) := by
  refine Relates.bind (KeepsShape.kept.splitBounds range spares) (fun rest => ?_)
  exact Relates.bind (reprotectNodes_keepsShape range prot _ _)
    (fun _ => Relates.pure _)

theorem incarnationFor_keepsShape (node : Node) : Relates KeepsShape (incarnationFor node) := by
  refine Relates.observing (fun found => ?_)
  split
  · exact Relates.pure _
  refine Relates.observing (fun other => ?_)
  split
  · exact Relates.pure _
  · refine Relates.bind (fun _ => KeepsShape.of_same rfl rfl) (fun _ => ?_)
    exact Relates.observe _

theorem createNode_keepsShape (node : Node) : Relates KeepsShape (createNode node) := by
  refine Relates.bind (incarnationFor_keepsShape node) (fun incarnation => ?_)
  exact Relates.bind (KeepsShape.kept.charge node)
    (fun _ => insertCoalescing_keepsShape _)

theorem applyEdit_keepsShape (request : ReservationRequest) (flags : ReservationNodeFlags)
    (backing : Option HostBackingIdentity) (spares : List SpareNode) :
    Relates KeepsShape (applyEdit request flags backing spares) := by
  refine Relates.bind ?_ (fun afterSource => ?_)
  · unfold removeSource
    split
    · exact Relates.pure _
    · exact KeepsShape.kept.removeRange _ _
  refine Relates.bind ?_ (fun afterRange => ?_)
  · unfold editRange
    split
    · exact reprotectRange_keepsShape _ _ _
    · exact KeepsShape.kept.removeRange _ _
  unfold installNode
  split
  · exact Relates.bind (takeSpare_relates _)
      (fun _ => createNode_keepsShape _)
  · exact Relates.pure _

/-! ## Calls -/

theorem settlePending_keepsShape (pending : Pending) : Relates KeepsShape (settlePending pending) := by
  refine Relates.bind (fun _ => KeepsShape.of_same rfl rfl) (fun _ => ?_)
  refine Relates.observing (fun generation => ?_)
  refine Relates.demanding (fun next => ?_)
  exact Relates.bind (fun _ => KeepsShape.of_same rfl rfl)
    (fun _ => Relates.pure _)

theorem completeAs_keepsShape (request : ReservationRequest) (hostOwned : Bool) :
    Relates KeepsShape (completeAs request hostOwned) := by
  intro root
  rcases completeAs_cases request hostOwned root with
    ⟨reason, refused, _⟩ | ⟨pending, _, _, goes⟩
  · rw [refused]
    exact KeepsShape.refl root
  · rw [goes]
    exact Relates.bind (applyEdit_keepsShape _ _ _ _)
      (fun _ => settlePending_keepsShape pending) root

theorem completeHostOwned_keepsShape (request : ReservationRequest) :
    Relates KeepsShape (completeHostOwned request) := by
  refine Relates.observing (fun prepares => ?_)
  exact Relates.bind (Relates.require _ _)
    (fun _ => completeAs_keepsShape request true)

theorem refusePending_keepsShape (request : ReservationRequest) :
    Relates KeepsShape (refusePending request) := by
  refine Relates.observing (fun found => ?_)
  refine Relates.demanding (fun pending => ?_)
  refine Relates.requiring ?_
  exact fun _ => KeepsShape.of_same rfl rfl

theorem writePendingBacking_keepsShape (backing : HostBackingIdentity) :
    Relates KeepsShape (writePendingBacking backing) := by
  refine Relates.observing (fun found => ?_)
  refine Relates.demanding (fun pending => ?_)
  split
  · exact Relates.refuse _
  · exact Relates.bind (sourceReserve_keepsShape _)
      (fun _ _ => KeepsShape.of_same rfl rfl)

theorem propose_keepsShape (proposal : ReservationProposal) :
    Relates KeepsShape (propose proposal) := by
  refine Relates.observing (fun checked => ?_)
  refine Relates.bind (Relates.ofExcept _) (fun _ => ?_)
  refine Relates.observing (fun current => ?_)
  refine Relates.demanding (fun sequence => ?_)
  refine Relates.observing (fun generation => ?_)
  refine Relates.demanding (fun _ => ?_)
  refine Relates.observing (fun needed => ?_)
  refine Relates.bind (KeepsShape.relates (allocateSpares_untouched needed))
    (fun nodes => ?_)
  refine Relates.observing (fun request => ?_)
  exact Relates.bind (fun _ => KeepsShape.of_same rfl rfl)
    (fun _ => Relates.pure _)

theorem Tolerant.keepsShape : Tolerant KeepsShape :=
  ⟨KeepsShape.refl, KeepsShape.trans, fun _ _ untouched => KeepsShape.of_untouched untouched,
    fun proposal _ => propose_keepsShape proposal⟩

theorem writeOrRefuse_keepsShape (backing : HostBackingIdentity) (request : ReservationRequest) :
    Relates KeepsShape (writeOrRefuse backing request) := by
  intro root
  have step := writePendingBacking_keepsShape backing root
  unfold writeOrRefuse
  split
  · rename_i ran
    rw [ran] at step
    exact step
  rename_i refusal failed ran
  rw [ran] at step
  refine KeepsShape.trans _ _ _ step ?_
  exact Relates.bind (refusePending_keepsShape request)
    (fun _ => Relates.refuse _) failed

theorem mmapPrivateFile_keepsShape (placement : Placement) (len : Nat)
    (prot : ReservationProtection) (backing : HostBackingIdentity) :
    Relates KeepsShape (mmapPrivateFile placement len prot backing) := by
  refine Relates.observing (fun excluded => ?_)
  refine Relates.requiring ?_
  refine Relates.requiring ?_
  refine Relates.observing (fun placed => ?_)
  refine Relates.bind (Relates.ofExcept _) (fun range => ?_)
  refine Relates.observing (fun brk => ?_)
  refine Relates.bind (propose_keepsShape _) (fun decision => ?_)
  split
  · exact Relates.pure _
  · exact Relates.bind (writeOrRefuse_keepsShape _ _)
      (fun _ => Relates.pure _)

theorem mremapInner_keepsShape (source : ReservationRange) (newLen : Nat) (target : MoveTarget) :
    Relates KeepsShape (mremapInner source newLen target) := by
  refine Relates.observing (fun admitted => ?_)
  refine Relates.requiring ?_
  refine Relates.observing (fun excluded => ?_)
  refine Relates.requiring ?_
  refine Relates.requiring ?_
  refine Relates.demanding (fun rounded => ?_)
  refine Relates.requiring ?_
  refine Relates.observing (fun run => ?_)
  refine Relates.demanding (fun node => ?_)
  refine Relates.requiring ?_
  refine Relates.observing (fun brk => ?_)
  split
  · refine Relates.demanding (fun range => ?_)
    exact Relates.bind (Relates.require _ _)
      (fun _ => propose_keepsShape _)
  split
  · exact Relates.pure _
  split
  · exact Relates.bind (Relates.demand _ _)
      (fun tail => propose_keepsShape _)
  refine Relates.observing (fun growth => ?_)
  split
  · exact propose_keepsShape _
  refine Relates.requiring ?_
  refine Relates.observing (fun hole => ?_)
  refine Relates.demanding (fun address => ?_)
  exact Relates.bind (Relates.demand _ _)
    (fun range => propose_keepsShape _)

theorem mremap_keepsShape (source : ReservationRange) (newLen : Nat) (target : MoveTarget) :
    Relates KeepsShape (mremap source newLen target) := by
  refine Relates.observing (fun backing => ?_)
  refine Relates.bind (mremapInner_keepsShape source newLen target)
    (fun decision => ?_)
  split
  · split
    · refine Relates.bind ?_ (fun _ => Relates.pure _)
      refine Relates.observing (fun found => ?_)
      refine Relates.demanding (fun result => ?_)
      refine Relates.demanding (fun carried => ?_)
      split
      · exact Relates.bind (refusePending_keepsShape _)
          (fun _ => Relates.refuse _)
      · exact writePendingBacking_keepsShape carried
    · exact Relates.pure _
  · exact Relates.pure _

theorem insertBackedNode_keepsShape (range : ReservationRange) (prot : ReservationProtection)
    (flags : ReservationNodeFlags) (backing : Option HostBackingIdentity) :
    Relates KeepsShape (insertBackedNode range prot flags backing) := by
  refine Relates.requiring ?_
  refine Relates.observing (fun admitted => ?_)
  refine Relates.requiring ?_
  refine Relates.observing (fun excluded => ?_)
  refine Relates.requiring ?_
  refine Relates.observing (fun free => ?_)
  refine Relates.requiring ?_
  refine Relates.bind (KeepsShape.relates hostNode_untouched) (fun _ => ?_)
  refine Relates.bind ?_ (fun _ => createNode_keepsShape _)
  cases backing with
  | none => exact Relates.pure _
  | some source => exact sourceReserve_keepsShape source.name

theorem importRow_keepsShape (range : ReservationRange) (prot : ReservationProtection)
    (flags : ReservationNodeFlags) (backing : Option HostBackingIdentity) :
    Relates KeepsShape (importRow range prot flags backing) := by
  refine Relates.observing (fun admitted => ?_)
  exact Relates.bind (Relates.require _ _)
    (fun _ => insertBackedNode_keepsShape range prot flags backing)

theorem hostEditAdmitted_keepsShape : Relates KeepsShape hostEditAdmitted := by
  refine Relates.observing (fun admitted => ?_)
  refine Relates.requiring ?_
  refine Relates.observing (fun excluded => ?_)
  refine Relates.requiring ?_
  refine Relates.observing (fun generation => ?_)
  exact Relates.demand _ _

theorem insertOpaqueBacked_keepsShape (range : ReservationRange) (prot : ReservationProtection)
    (flags : ReservationNodeFlags) (backing : Option HostBackingIdentity) :
    Relates KeepsShape (insertOpaqueBacked range prot flags backing) := by
  refine Relates.observing (fun meets => ?_)
  refine Relates.requiring ?_
  refine Relates.bind hostEditAdmitted_keepsShape (fun generation => ?_)
  refine Relates.bind (insertBackedNode_keepsShape _ _ _ _) (fun _ => ?_)
  exact fun _ => KeepsShape.of_same rfl rfl

theorem retireOpaque_keepsShape (range : ReservationRange) :
    Relates KeepsShape (retireOpaque range) := by
  refine Relates.observing (fun meets => ?_)
  refine Relates.requiring ?_
  refine Relates.bind hostEditAdmitted_keepsShape (fun generation => ?_)
  refine Relates.observing (fun needed => ?_)
  refine Relates.bind (KeepsShape.relates (allocateSpares_untouched needed))
    (fun spares => ?_)
  refine Relates.bind (KeepsShape.kept.removeRange range spares) (fun _ => ?_)
  exact fun _ => KeepsShape.of_same rfl rfl

theorem setFlags_keepsShape (range : ReservationRange) (set clear : ReservationNodeFlags) :
    Relates KeepsShape (setFlags range set clear) := by
  refine Relates.requiring ?_
  refine Relates.bind hostEditAdmitted_keepsShape (fun generation => ?_)
  refine Relates.observing (fun checked => ?_)
  refine Relates.bind (Relates.ofExcept _) (fun _ => ?_)
  refine Relates.observing (fun needed => ?_)
  refine Relates.bind (KeepsShape.relates (allocateSpares_untouched needed))
    (fun spares => ?_)
  refine Relates.bind (KeepsShape.kept.splitBounds range spares) (fun _ => ?_)
  refine Relates.bind (rewriteFlags_keepsShape range set clear _ _) (fun _ => ?_)
  exact fun _ => KeepsShape.of_same rfl rfl

theorem run_keepsShape (call : Call) : Relates KeepsShape call.run := by
  by_cases aside : call.aside = true
  · exact KeepsShape.relates (run_untouched aside)
  by_cases proposes : call.proposes = true
  · exact run_tolerant Tolerant.keepsShape proposes
  cases call with
  | importRow range prot flags backing =>
    exact answering_relates (importRow_keepsShape range prot flags backing)
  | mmapPrivateFile placement len prot backing =>
    exact answering_relates (mmapPrivateFile_keepsShape placement len prot backing)
  | mremap source newLen target =>
    exact answering_relates (mremap_keepsShape source newLen target)
  | complete request => exact answering_relates (completeAs_keepsShape request false)
  | completeHostOwned request => exact answering_relates (completeHostOwned_keepsShape request)
  | refusePending request => exact answering_relates (refusePending_keepsShape request)
  | insertOpaqueBacked range prot flags backing =>
    exact answering_relates (insertOpaqueBacked_keepsShape range prot flags backing)
  | retireOpaque range => exact answering_relates (retireOpaque_keepsShape range)
  | setFlags range set clear => exact answering_relates (setFlags_keepsShape range set clear)
  | writePendingBacking backing =>
    exact answering_relates (writePendingBacking_keepsShape backing)
  | retireUnusedSource name => exact answering_relates (KeepsShape.kept.retireUnused (sourceReserve_keepsShape name))
  | takeRetiredHostBacking => exact answering_relates takeRetiredHostBacking_keepsShape
  | _ => first | exact absurd rfl aside | exact absurd rfl proposes

/-! ## Clones and reachable roots -/

theorem copyNodes_keepsShape (nodes : List Node) : Relates KeepsShape (copyNodes nodes) := by
  induction nodes with
  | nil => exact Relates.pure _
  | cons node rest ih =>
    refine Relates.bind ?_ (fun _ => ih)
    refine Relates.bind (KeepsShape.relates hostNode_untouched) (fun _ => ?_)
    refine Relates.bind ?_ (fun _ => KeepsShape.kept.charge node)
    cases node.hostBacking with
    | none => exact Relates.pure _
    | some backing => exact sourceReserve_keepsShape backing.name

theorem cloneInto_shaped {parent child after : Root} (shaped : Shaped child)
    (cloned : cloneInto parent child = (.ok (), after)) : Shaped after := by
  have ends : Ends (fun answer after => answer = .ok () -> Shaped after) (cloneInto parent) child := by
    have refused : ∀ {after : Root} (reason : Refusal),
        (.error reason : Except Refusal Unit) = .ok () -> Shaped after :=
      nofun
    refine Ends.observe (Ends.require (refused _) (fun _ => ?_))
    refine Ends.require (refused _) (fun _ => Ends.require (refused _) (fun _ => ?_))
    refine Ends.observe (Ends.require (refused _) (fun _ => Ends.observe ?_))
    refine Ends.demand (refused _) (fun generation _ => ?_)
    refine Ends.bind (fun _ _ _ => refused _) (fun _ secured ranSecure => ?_)
    cases secureHostNodes_eq ranSecure
    refine Ends.bind (fun _ _ _ => refused _) (fun _ copiedRoot ranDiscard => ?_)
    rcases bind_eq_ok (discardingSources_eq_ok ranDiscard) with ⟨_, middle, copying, rest⟩
    rcases bind_eq_ok rest with ⟨_, after, securing, notifying⟩
    cases secureHostNodes_eq securing
    cases admitNotifications_eq notifying
    intro _
    have kept := copyNodes_keepsShape (parent.tree.preorder.filter Node.inherits) child shaped
    rw [copying] at kept
    exact ⟨(SearchTree.build_balanced _ (le_refl _)).1, kept.sources⟩
  exact ends.of_eq cloned rfl

end Commands

theorem Root.Claimed.shaped {root : Root} (claimed : root.Claimed) : Shaped root := by
  refine ⟨?_, ?_⟩
  · rw [claimed.tree]
    trivial
  · rw [claimed.sources]
    trivial

theorem Reachable.shaped {allowed : Root -> Event -> Prop} {root : Root}
    (reachable : Reachable allowed root) : Shaped root := by
  induction reachable with
  | claimed claimed => exact claimed.shaped
  | called _ _ ih =>
    exact run_keepsShape _ _ (KeepsShape.of_untouched (within_untouched _ _) ih)
  | forked _ _ cloned _ childHypothesis =>
    exact cloneInto_shaped
      (KeepsShape.of_untouched (within_untouched _ _) childHypothesis) cloned

end Reservation
end Carrick
