import Carrick.Reservation.Seams
import Mathlib.Data.Set.Card

namespace Carrick
namespace Reservation

open Foundation
open Command

/-!
# The number of nodes a root consumes

Every call of a root that edits its tree puts back what it cut, with one
exception.  The attribute edit splits at both bounds of its range first and
puts back only the nodes whose attributes change, so that setting an attribute
on a part of a mapping that has it already leaves the mapping in pieces.  In
runs where a node that such an edit cuts is one that it changes, the nodes of
the tree are the maximal runs of the map.
-/

/-! ## The edits of a call -/

variable {flags : ReservationNodeFlags} {backing : Option HostBackingIdentity} {root after : Root}

theorem applyEdit_stitched {request : ReservationRequest} {spares : List SpareNode}
    (stitched : Stitched root.tree)
    (reaches : request.operation.installs = true -> (request.createdNode flags backing).Reaches)
    (ran : applyEdit request flags backing spares root = (.ok (), after)) :
    Stitched after.tree := by
  unfold applyEdit at ran
  rcases bind_eq_ok ran with ⟨afterSource, first, ranSource, ranRest⟩
  rcases bind_eq_ok ranRest with ⟨afterRange, second, ranRange, ranInstall⟩
  have sourceStitched : Stitched first.tree := by
    cases source : request.source with
    | none =>
      rw [source] at ranSource
      cases ranSource
      exact stitched
    | some range =>
      rw [source] at ranSource
      exact removeRange_stitched stitched ranSource
  have rangeStitched : Stitched second.tree := by
    unfold editRange at ranRange
    split at ranRange
    · exact reprotectRange_stitched sourceStitched ranRange
    · exact removeRange_stitched sourceStitched ranRange
  unfold installNode at ranInstall
  split at ranInstall
  · rename_i installs
    rcases bind_eq_ok ranInstall with ⟨_, third, ranSpare, ranCreate⟩
    have sameRoot : third = second := by
      unfold takeSpare at ranSpare
      split at ranSpare
      · cases ranSpare
      · cases ranSpare
        rfl
    subst sameRoot
    have removes : request.operation.reprotects = false := by
      cases reprotects : request.operation.reprotects with
      | false => rfl
      | true =>
        rw [ReservationOperation.installs_of_reprotects reprotects] at installs
        cases installs
    unfold editRange at ranRange
    rw [removes, if_neg Bool.false_ne_true] at ranRange
    rcases removeRange_spec request.range afterSource sourceStitched.tidy with
      ⟨_, _, ranSpec, _, cleared, _⟩
    rw [ranRange] at ranSpec
    cases ranSpec
    exact createNode_stitched rangeStitched (range_formed _ _ _ _ _) (reaches installs)
      (free_of_cells rangeStitched.tidy (cleared _ rfl).1) ranCreate
  · cases ranInstall
    exact rangeStitched

theorem completeAs_stitched (sound : Sound root) (stitched : Stitched root.tree)
    {request : ReservationRequest} {hostOwned : Bool} {result : Nat}
    (ran : completeAs request hostOwned root = (.ok result, after)) : Stitched after.tree := by
  rcases completeAs_cases request hostOwned root with ⟨_, wrong, _⟩ | ⟨pending, has, _, shape⟩
  · rw [ran] at wrong
    cases wrong
  rw [ran] at shape
  rcases bind_eq_ok shape.symm with ⟨_, edited, ranEdit, ranSettle⟩
  have settled := (settlePending_frame pending edited).1
  rw [ranSettle] at settled
  rw [settled]
  exact applyEdit_stitched stitched
    (fun installs => ((sound.pending pending has).created_ready hostOwned installs).1) ranEdit

variable {range : ReservationRange} {prot : ReservationProtection}

theorem Inserted.stitched (stitched : Stitched root.tree) {answer : Except Refusal Unit}
    (inserted : Inserted ⟨range.start, range.stop, prot, flags, 0, backing⟩ root answer after)
    (answered : answer = .ok ()) : Stitched after.tree := by
  rcases inserted with ⟨_, _, reason, refused⟩ | ⟨middle, inserting, ran⟩
  · rw [answered] at refused
    cases refused
  · rw [answered] at ran
    have tree := inserting.tree
    exact createNode_stitched (tree ▸ stitched) (range_formed range prot flags 0 backing)
      inserting.reaches (tree ▸ inserting.free) ran

theorem importRow_stitched (stitched : Stitched root.tree)
    (ran : importRow range prot flags backing root = (.ok (), after)) : Stitched after.tree := by
  unfold importRow at ran
  rw [observe_bind_apply] at ran
  rcases bind_eq_ok ran with ⟨_, here, checked, inserting⟩
  rw [(require_eq_ok checked).2] at inserting
  have inserted := (insertBackedNode_inserted stitched.tidy range prot flags backing).of_eq inserting
  exact inserted.stitched stitched rfl

theorem hostEditAdmitted_eq_ok {generation : Nat}
    (ran : hostEditAdmitted root = (.ok generation, after)) : after = root := by
  rcases hostEditAdmitted_cases root with ⟨_, wrong⟩ | ⟨_, same, _⟩
  · rw [ran] at wrong
    cases wrong
  · rw [ran] at same
    cases same
    rfl

theorem insertOpaqueBacked_stitched (stitched : Stitched root.tree)
    (ran : insertOpaqueBacked range prot flags backing root = (.ok (), after)) :
    Stitched after.tree := by
  unfold insertOpaqueBacked at ran
  rw [observe_bind_apply] at ran
  rcases bind_eq_ok ran with ⟨_, first, checked, ranRest⟩
  rw [(require_eq_ok checked).2] at ranRest
  rcases bind_eq_ok ranRest with ⟨generation, second, granted, ranInsert⟩
  rw [hostEditAdmitted_eq_ok granted] at ranInsert
  rcases bind_eq_ok ranInsert with ⟨_, third, inserting, ranEnd⟩
  cases ranEnd
  have inserted :=
    (insertBackedNode_inserted stitched.tidy range prot (flags.difference .anonymous) backing).of_eq
      inserting
  have done : Stitched third.tree := inserted.stitched stitched rfl
  exact done

theorem retireOpaque_stitched (stitched : Stitched root.tree)
    (ran : retireOpaque range root = (.ok (), after)) :
    Stitched after.tree := by
  unfold retireOpaque at ran
  rw [observe_bind_apply] at ran
  rcases bind_eq_ok ran with ⟨_, first, checked, ranRest⟩
  rw [(require_eq_ok checked).2] at ranRest
  rcases bind_eq_ok ranRest with ⟨generation, second, granted, ranTake⟩
  rw [hostEditAdmitted_eq_ok granted, observe_bind_apply] at ranTake
  rcases bind_eq_ok ranTake with ⟨spares, third, taking, ranRemove⟩
  have sameTree : third.tree = root.tree := by
    have same := (allocateSpares_sameMap (root.splitsNeeded range) root).tree
    rw [taking] at same
    exact same
  rcases bind_eq_ok ranRemove with ⟨_, fourth, removing, ranEnd⟩
  cases ranEnd
  have done : Stitched fourth.tree := removeRange_stitched (sameTree ▸ stitched) removing
  exact done

/-! ## Attribute edits -/

/-- Whatever node an attribute edit cuts at a bound of its range, it changes. -/
def Call.changesWhatItCuts (root : Root) : Call -> Bool
  | setFlags range set clear =>
    [range.start, range.stop].all (fun bound => (root.next bound).all (fun node =>
      decide (bound <= node.start) ||
        decide ((node.flags.union set).difference clear ≠ node.flags)))
  | _ => true

theorem changes_of_uncut (tidy : Tidy root.tree) {bound : Nat} {set clear : ReservationNodeFlags}
    (changes : (root.next bound).all (fun node => decide (bound <= node.start) || decide
      ((node.flags.union set).difference clear ≠ node.flags)) = true)
    (uncut : ¬ Cut root.tree bound) {address : Nat} {cell : Cell}
    (near : ∀ node ∈ root.tree.toList, node.start < bound -> bound < node.stop ->
      node.covers address) (found : cells root.tree address = some cell) :
    (attributesAs set clear).cell cell ≠ cell := by
  have straddled : root.straddles bound = true := by
    by_contra whole
    exact uncut (cut_of_not_straddles tidy (by simpa using whole))
  rcases straddles_iff.mp straddled with ⟨node, searched, low⟩
  rcases next_eq_some tidy searched with ⟨member, high, _⟩
  rw [cells_of_mem tidy member (near node member low high)] at found
  cases found
  rw [searched, Option.all_some, Bool.or_eq_true, decide_eq_true_eq, decide_eq_true_eq] at changes
  intro same
  rcases changes with above | changed
  · omega
  · exact changed (congrArg Cell.flags same)

theorem setFlags_stitched (stitched : Stitched root.tree) {set clear : ReservationNodeFlags}
    (changes : Call.changesWhatItCuts root (.setFlags range set clear) = true)
    (ran : setFlags range set clear root = (.ok (), after)) : Stitched after.tree := by
  have tidy := stitched.tidy
  unfold setFlags at ran
  rcases bind_eq_ok ran with ⟨_, first, checked, ranRest⟩
  rw [(require_eq_ok checked).2] at ranRest
  rcases bind_eq_ok ranRest with ⟨generation, second, granted, ranCheck⟩
  rw [hostEditAdmitted_eq_ok granted, observe_bind_apply] at ranCheck
  rcases bind_eq_ok ranCheck with ⟨_, third, passing, ranTake⟩
  have passed : attributesChecked root range set = .ok () := congrArg Prod.fst passing
  cases congrArg Prod.snd passing
  rw [observe_bind_apply] at ranTake
  rcases bind_eq_ok ranTake with ⟨spares, middle, taking, ranSplit⟩
  have sameTree : middle.tree = root.tree := by
    have same := (allocateSpares_sameMap (root.splitsNeeded range) root).tree
    rw [taking] at same
    exact same
  rcases bind_eq_ok ranSplit with ⟨rest, split, splitting, ranWalk⟩
  have bounds := splitBounds_cuts (sameTree ▸ tidy) (sameTree ▸ stitched.reaching) splitting
  rw [sameTree] at bounds
  unfold Call.changesWhatItCuts at changes
  simp only [List.all_cons, List.all_nil, Bool.and_true, Bool.and_eq_true] at changes
  have changing : ChangesSeams (attributesAs set clear) range split.tree := by
    refine ⟨fun seam cell found => ?_, fun seam below cell step found => ?_⟩
    · rw [bounds.recut.cells_eq] at found
      refine changes_of_uncut tidy changes.1 (bounds.seams stitched.seamless seam).2 ?_ found
      exact fun node _ low high => ⟨Nat.le_of_lt low, high⟩
    rw [bounds.recut.cells_eq] at found
    refine changes_of_uncut tidy changes.2 (bounds.seams stitched.seamless seam).2 ?_ found
    intro node member low high
    have startAligned := (tidy.formed node member).start_aligned
    have stopAligned := range.stop_aligned
    unfold Node.covers
    unfold pageSize at *
    omega
  rcases rewriteFlags_stitches range set clear range.pages split changing
    (bounds.stitching stitched.seamless) (Nat.le_of_lt range.ordered) range.start_aligned
    range.le_pages (fun address inside => by
      rw [bounds.recut.cells_eq]
      exact attributesChecked_covers tidy passed address inside) with ⟨tree, walked, done⟩
  rw [bind_of_ok walked] at ranWalk
  cases ranWalk
  exact done

/-! ## Every call -/

/-- Whether a call edits the committed tree. -/
def Call.edits : Call -> Bool
  | importRow _ _ _ _ => true
  | complete _ => true
  | completeHostOwned _ => true
  | insertOpaqueBacked _ _ _ _ => true
  | retireOpaque _ => true
  | setFlags _ _ _ => true
  | _ => false

def SameTree (before after : Root) : Prop := after.tree = before.tree

theorem SameTree.refl (root : Root) : SameTree root root := rfl

theorem SameTree.trans (first second third : Root) (earlier : SameTree first second)
    (later : SameTree second third) : SameTree first third :=
  Eq.trans later earlier

instance : IsPreorder Root SameTree where
  refl := SameTree.refl
  trans := SameTree.trans

variable {α : Type} {command : Guarded α} {answer : α -> Answer}

theorem SameTree.of_steady (steady : Relates Steady command) :
    Relates SameTree (answering answer command) :=
  answering_relates (fun root => (steady root).tree)

theorem SameTree.of_sameMap (same : Relates SameMap command) :
    Relates SameTree (answering answer command) :=
  answering_relates (fun root => (same root).tree)

theorem run_sameTree {call : Call} (other : call.edits = false) : Relates SameTree call.run := by
  by_cases aside : call.aside = true
  · exact fun root => (run_untouched aside root).tree
  by_cases proposes : call.proposes = true
  · exact fun root => (run_tolerant Tolerant.steady proposes root).tree
  cases call with
  | importRow range prot flags backing => cases other
  | mmapPrivateFile placement len prot backing =>
    exact SameTree.of_steady (mmapPrivateFile_steady placement len prot backing)
  | mremap source newLen target => exact SameTree.of_steady (mremap_steady source newLen target)
  | complete request => cases other
  | completeHostOwned request => cases other
  | refusePending request => exact SameTree.of_steady (refusePending_steady request)
  | insertOpaqueBacked range prot flags backing => cases other
  | retireOpaque range => cases other
  | setFlags range set clear => cases other
  | writePendingBacking backing => exact SameTree.of_steady (writePendingBacking_steady backing)
  | retireUnusedSource name => exact SameTree.of_sameMap (retireUnusedSource_sameMap name)
  | takeRetiredHostBacking => exact SameTree.of_sameMap takeRetiredHostBacking_sameMap
  | _ => first | exact absurd rfl aside | exact absurd rfl proposes

theorem ran_of_answering {value : Answer}
    (ran : answering answer command root = (.ok value, after)) :
    ∃ found, command root = (.ok found, after) := by
  rcases bind_eq_ok ran with ⟨found, middle, first, made⟩
  cases made
  exact ⟨found, first⟩

theorem run_stitched (sound : Sound root) (stitched : Stitched root.tree) {call : Call}
    (changes : call.changesWhatItCuts root = true) {answer : Answer}
    (ran : call.run root = (.ok answer, after)) : Stitched after.tree := by
  cases edits : call.edits with
  | false =>
    have same := run_sameTree edits root
    rw [ran] at same
    exact same.symm ▸ stitched
  | true =>
    cases call with
    | importRow range prot flags backing =>
      rcases ran_of_answering ran with ⟨_, inserted⟩
      exact importRow_stitched stitched inserted
    | complete request =>
      rcases ran_of_answering ran with ⟨_, completed⟩
      exact completeAs_stitched sound stitched completed
    | completeHostOwned request =>
      rcases ran_of_answering ran with ⟨_, completed⟩
      unfold completeHostOwned at completed
      rw [observe_bind_apply] at completed
      rcases bind_eq_ok completed with ⟨_, same, checked, completing⟩
      rw [(require_eq_ok checked).2] at completing
      exact completeAs_stitched sound stitched completing
    | insertOpaqueBacked range prot flags backing =>
      rcases ran_of_answering ran with ⟨_, inserted⟩
      exact insertOpaqueBacked_stitched stitched inserted
    | retireOpaque range =>
      rcases ran_of_answering ran with ⟨_, retired⟩
      exact retireOpaque_stitched stitched retired
    | setFlags range set clear =>
      rcases ran_of_answering ran with ⟨_, edited⟩
      exact setFlags_stitched stitched changes edited
    | _ => cases edits

def Event.changesWhatItCuts (root : Root) (event : Event) : Prop :=
  event.call.changesWhatItCuts (root.within event.around) = true

instance (root : Root) (event : Event) : Decidable (event.changesWhatItCuts root) :=
  inferInstanceAs (Decidable (_ = true))

/-- One event: a refusal leaves the tree alone, an answer leaves no seam. -/
theorem Event.stitched (sound : Sound root) (stitched : Stitched root.tree) {event : Event}
    (careful : event.careful root) (changes : event.changesWhatItCuts root) :
    Stitched (event.run root).2.tree := by
  have performed := Event.performed sound careful
  cases ran : event.run root with
  | mk answer after =>
    rw [ran] at performed
    cases answer with
    | error reason =>
      rw [performed.refused reason rfl]
      exact stitched
    | ok value =>
      exact run_stitched ((within_untouched root event.around).keepsSound sound) stitched
        changes ran

/-- A child has some of its parent's nodes, and no seam that its parent lacks. -/
theorem Cloned.stitched {parent child : Root} (cloned : Cloned parent child after)
    (stitched : Stitched parent.tree) : Stitched after.tree := by
  have tidy := cloned.tidy stitched.tidy
  have reaching : Reaching after.tree :=
    fun node member => stitched.reaching node (cloned.mem_parent member)
  refine ⟨tidy, reaching, fun address seam => ?_⟩
  rcases seam.continues tidy reaching with ⟨lower, upper, lowerMember, upperMember, starts, continues⟩
  exact stitched.seamless upper.start (continues.seam stitched.tidy stitched.reaching
    (cloned.mem_parent lowerMember) (cloned.mem_parent upperMember))

theorem Stitched.leaf : Stitched .leaf := by
  refine ⟨Tidy.leaf, nofun, fun address seam => ?_⟩
  rcases seam.joined.follows with ⟨_, _, _, _, wrong, _⟩
  cases wrong

theorem Reachable.stitched
    (reachable : Reachable (fun before event => event.careful before ∧ event.changesWhatItCuts
      before) root) : Stitched root.tree := by
  induction reachable with
  | claimed claimed =>
    rw [claimed.tree]
    exact Stitched.leaf
  | called earlier allows ih =>
    exact Event.stitched (earlier.sound (fun _ _ allowed => allowed.1)) ih allows.1
      allows.2
  | forked _ _ cloned parentHypothesis _ =>
    exact ((cloneInto_cloned _ _).of_eq cloned rfl).stitched parentHypothesis

/-! ## Nodes and maximal runs -/

/-- Where the maximal runs of a map begin: at mapped pages that do not go on
with the page below them. -/
def runStarts (map : Nat -> Option Cell) : Set Nat :=
  { address | address % pageSize = 0 ∧ (map address).isSome = true ∧ ¬ Joined map address }

theorem joined_inside {tree : MappingTree} (tidy : Tidy tree) (reaching : Reaching tree) {node : Node}
    (member : node ∈ tree.toList) {address : Nat} (aligned : address % pageSize = 0)
    (above : node.start < address) (below : address < node.stop) : Joined (cells tree) address := by
  have formed := tidy.formed node member
  have startAligned := formed.start_aligned
  have stopAligned := formed.stop_aligned
  have page : node.start + pageSize <= address ∧ address + pageSize <= node.stop := by
    unfold pageSize at *
    omega
  rcases Nat.exists_eq_add_of_le page.1 with ⟨more, shape⟩
  have step : node.start + more + pageSize = address := by omega
  have positive : 0 < pageSize := by decide
  refine ⟨aligned, node.start + more, node.cell (node.start + more), node.cell address, step,
    cells_of_mem tidy member ⟨Nat.le_add_right _ _, by omega⟩,
    cells_of_mem tidy member ⟨by omega, below⟩, rfl, rfl, rfl, ?_⟩
  cases has : node.hostBacking with
  | none =>
    refine .inl ⟨?_, ?_⟩
    · unfold Node.cell
      rw [has]
      rfl
    · unfold Node.cell
      rw [has]
      rfl
  | some backing =>
    have reaches := reaching node member
    have distance : node.start + more - node.start + pageSize = address - node.start := by omega
    have room : address - node.start + pageSize <= node.len := by
      unfold Node.len
      omega
    rcases reaches.advance has room with ⟨upper, atUpper⟩
    rcases reaches.advance has (show node.start + more - node.start + pageSize <= node.len by omega)
      with ⟨lower, atLower⟩
    refine .inr ⟨lower, upper, ?_, ?_, ?_⟩
    · unfold Node.cell
      rw [has]
      exact atLower
    · unfold Node.cell
      rw [has]
      exact atUpper
    · have whole := backing.advance_bind (node.start + more - node.start) pageSize
      rw [atLower, Option.bind_some, distance] at whole
      exact whole.trans atUpper

theorem Stitched.starts {tree : MappingTree} (stitched : Stitched tree) (address : Nat) :
    (∃ node ∈ tree.toList, node.start = address) <-> address ∈ runStarts (cells tree) := by
  have tidy := stitched.tidy
  constructor
  · rintro ⟨node, member, rfl⟩
    have formed := tidy.formed node member
    refine ⟨formed.start_aligned, ?_, fun joined => stitched.seamless _ ⟨joined, ?_⟩⟩
    · rw [cells_of_mem tidy member ⟨le_rfl, formed.ordered⟩]
      rfl
    intro other otherMember
    rcases tidy.disjoint otherMember member with rfl | below | above
    · exact .inr le_rfl
    · exact .inl below
    · have ordered := formed.ordered
      exact .inr (by omega)
  · rintro ⟨aligned, mapped, alone⟩
    rcases Option.isSome_iff_exists.mp mapped with ⟨cell, found⟩
    rcases exists_of_cells found with ⟨node, member, covers, _⟩
    refine ⟨node, member, ?_⟩
    by_contra different
    have low : node.start <= address := covers.1
    exact alone (joined_inside tidy stitched.reaching member aligned (by omega) covers.2)

/-- No two nodes that meet are one mapping of one incarnation, so that the
nodes are as many as the maximal runs of the map. -/
structure Unfragmented (tree : MappingTree) : Prop where
  apart : ∀ lower upper, lower ∈ tree.toList -> upper ∈ tree.toList ->
    lower.stop = upper.start -> lower.joins upper = false ∧ upper.joins lower = false
  nodes_eq_runs : tree.toList.length = (runStarts (cells tree)).ncard

theorem Stitched.unfragmented {tree : MappingTree} (stitched : Stitched tree) :
    Unfragmented tree := by
  have tidy := stitched.tidy
  refine ⟨fun lower upper lowerMember upperMember meet => ⟨?_, ?_⟩, ?_⟩
  · by_contra joins
    have continues := Continues.of_left meet (tidy.formed lower lowerMember).ordered
      (by simpa using joins)
    exact stitched.seamless _ (continues.seam tidy stitched.reaching lowerMember upperMember)
  · by_contra joins
    have continues := Continues.of_right meet (tidy.formed lower lowerMember).ordered
      (by simpa using joins)
    exact stitched.seamless _ (continues.seam tidy stitched.reaching lowerMember upperMember)
  have starts : runStarts (cells tree) = ↑((tree.toList.map Node.start).toFinset) := by
    ext address
    rw [<- stitched.starts address]
    simp
  have distinct : (tree.toList.map Node.start).Nodup := by
    refine List.Nodup.map_on (fun first firstMember second secondMember same =>
      tidy.eq_of_start firstMember secondMember same) ?_
    refine List.Pairwise.imp ?_ tidy.sorted
    rintro first second before rfl
    exact Nat.lt_irrefl _ before
  rw [starts, Set.ncard_coe_finset, List.toFinset_card_of_nodup distinct, List.length_map]

/-- In every run whose calls are careful and whose attribute edits change the
nodes they cut, no mapping is ever left in pieces. -/
theorem reachable_unfragmented {root : Root}
    (reachable : Reachable (fun before event =>
      event.careful before ∧ event.changesWhatItCuts before) root) : Unfragmented root.tree :=
  reachable.stitched.unfragmented

/-- Locking the middle page of three and unlocking it again. -/
def lockedOnce : List Event :=
  let plain := withLeftover none
  [⟨.importRow firstThreePages .readWrite .anonymousPrivate none, plain⟩,
    ⟨.finishImport, plain⟩,
    ⟨.setFlags secondArenaPage .locked .empty, plain⟩,
    ⟨.setFlags secondArenaPage .empty .locked, plain⟩]

theorem reachable_unfragmented_lockedOnce :
    (runAll (lockedOnce.take 3) emptyRoot).tree.toList.length = 3 ∧
      (runAll lockedOnce emptyRoot).tree.toList.length = 1 ∧
      (runStarts (cells (runAll lockedOnce emptyRoot).tree)).ncard = 1 := by
  have single : (runAll lockedOnce emptyRoot).tree.toList.length = 1 := by decide +kernel
  have reachable : Reachable (fun before event =>
      event.careful before ∧ event.changesWhatItCuts before) (runAll lockedOnce emptyRoot) :=
    reachable_runAll (.claimed emptyRoot_claimed) (by decide +kernel)
  exact ⟨by decide +kernel, single, (reachable_unfragmented reachable).nodes_eq_runs ▸ single⟩

/-- Locking a page of a mapping that is locked already. -/
def lockedTwice : List Event :=
  let plain := withLeftover none
  [⟨.importRow firstThreePages .readWrite (ReservationNodeFlags.anonymousPrivate.union .locked) none,
      plain⟩,
    ⟨.finishImport, plain⟩,
    ⟨.setFlags secondArenaPage .locked .empty, plain⟩]

/-- The edit answers, changes no page, and leaves three nodes for one mapping. -/
theorem locked_twice_fragments :
    Reachable (fun before event => event.careful before) (runAll lockedTwice emptyRoot) ∧
      (runAll lockedTwice emptyRoot).tree.toList.length = 3 ∧
      ¬ Unfragmented (runAll lockedTwice emptyRoot).tree := by
  refine ⟨reachable_runAll (.claimed emptyRoot_claimed) (by decide +kernel), by decide +kernel, ?_⟩
  intro unfragmented
  have pieces : ∃ lower ∈ (runAll lockedTwice emptyRoot).tree.toList,
      ∃ upper ∈ (runAll lockedTwice emptyRoot).tree.toList,
        lower.stop = upper.start ∧ lower.joins upper = true := by
    decide +kernel
  rcases pieces with ⟨lower, lowerMember, upper, upperMember, meet, joins⟩
  rw [(unfragmented.apart lower upper lowerMember upperMember meet).1] at joins
  cases joins

end Reservation
end Carrick
