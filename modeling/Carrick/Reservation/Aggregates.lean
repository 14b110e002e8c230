import Carrick.Foundation.TreeWalk
import Carrick.Reservation.Shape
import Mathlib.Algebra.BigOperators.Group.List.Basic
import Mathlib.Data.List.Basic

namespace Carrick
namespace Reservation

open Foundation
open Command

/-!
# The aggregates of the mapping tree

What a node caches is computed from the caches of its children.  Here it is
related to the nodes of the subtree themselves: the ends of the first and the
last, the widest gap between neighbours, and the sums of what they charge.  The
charges of a range and the bound on the depth of the tree follow.
-/

/-! ## What the nodes of a subtree amount to -/

/-- Where the first of the nodes starts. -/
def firstStart (nodes : List Node) : Nat := (nodes.head?.map Node.start).getD 0

/-- Where the last of the nodes ends. -/
def lastStop (nodes : List Node) : Nat := (nodes.getLast?.map Node.stop).getD 0

/-- The widest gap between neighbours. -/
def widestGap : List Node -> Nat
  | first :: second :: rest => max (second.start - first.stop) (widestGap (second :: rest))
  | _ => 0

def sumOf (charge : Node -> Nat) (nodes : List Node) : Nat := (nodes.map charge).sum

/-- The aggregates of a subtree, from its depth and its nodes in address order. -/
def aggregatesOf (depth : Nat) (nodes : List Node) : Aggregates where
  height := depth
  first := firstStart nodes
  last := lastStop nodes
  gap := widestGap nodes
  bytes := sumOf Node.len nodes
  data := sumOf Node.chargedData nodes
  locked := sumOf Node.chargedLocked nodes

theorem sumOf_append (charge : Node -> Nat) (first second : List Node) :
    sumOf charge (first ++ second) = sumOf charge first + sumOf charge second := by
  unfold sumOf
  rw [List.map_append, List.sum_append]

theorem sumOf_cons (charge : Node -> Nat) (node : Node) (rest : List Node) :
    sumOf charge (node :: rest) = charge node + sumOf charge rest := by
  unfold sumOf
  rw [List.map_cons, List.sum_cons]

theorem firstStart_cons (node : Node) (rest : List Node) : firstStart (node :: rest) = node.start :=
  rfl

variable {nodes : List Node}

theorem firstStart_append (nonempty : nodes ≠ []) (later : List Node) :
    firstStart (nodes ++ later) = firstStart nodes := by
  cases nodes with
  | nil => exact absurd rfl nonempty
  | cons node rest => rfl

theorem lastStop_append (nodes : List Node) {later : List Node} (nonempty : later ≠ []) :
    lastStop (nodes ++ later) = lastStop later := by
  unfold lastStop
  rw [List.getLast?_append_of_ne_nil _ nonempty]

variable {node : Node}

theorem lastStop_cons {rest : List Node} (nonempty : rest ≠ []) :
    lastStop (node :: rest) = lastStop rest := by
  rw [show node :: rest = [node] ++ rest from rfl, lastStop_append _ nonempty]

theorem widestGap_cons (node : Node) {rest : List Node} (nonempty : rest ≠ []) :
    widestGap (node :: rest) = max (firstStart rest - node.stop) (widestGap rest) := by
  cases rest with
  | nil => exact absurd rfl nonempty
  | cons second others => rfl

theorem widestGap_append (nodes : List Node) {later : List Node} (nonempty : nodes ≠ [])
    (laterNonempty : later ≠ []) :
    widestGap (nodes ++ later) =
      max (max (widestGap nodes) (firstStart later - lastStop nodes)) (widestGap later) := by
  induction nodes with
  | nil => exact absurd rfl nonempty
  | cons node rest ih =>
    cases rest with
    | nil =>
      rw [List.singleton_append, widestGap_cons node laterNonempty]
      simp only [widestGap, lastStop, List.getLast?_singleton, Option.map_some, Option.getD_some]
      omega
    | cons second others =>
      have tail : second :: others ≠ [] := by simp
      have onward := ih tail
      rw [List.cons_append, widestGap_cons node (by simp), onward, firstStart_append tail,
        lastStop_cons tail, widestGap_cons node tail]
      omega

/-! ## Every subtree caches the truth -/

variable {cached : Aggregates}

theorem Tidy.left {left right : MappingTree} (tidy : Tidy (.node left node cached right)) :
    Tidy left := by
  refine ⟨?_, fun other member => tidy.formed other (by simp [member])⟩
  have apart := tidy.apart
  rw [SearchTree.toList_node] at apart
  exact (List.pairwise_append.mp apart).1

theorem Tidy.right {left right : MappingTree} (tidy : Tidy (.node left node cached right)) :
    Tidy right := by
  refine ⟨?_, fun other member => tidy.formed other (by simp [member])⟩
  have apart := tidy.apart
  rw [SearchTree.toList_node] at apart
  exact (List.pairwise_cons.mp (List.pairwise_append.mp apart).2.1).2

theorem toList_ne_nil {left right : MappingTree} :
    (SearchTree.node left node cached right).toList ≠ [] := by
  simp

/-- What a subtree caches, if it is not empty. -/
def cachedOf (tree : MappingTree) : Option Aggregates :=
  match tree with
  | .leaf => none
  | .node _ _ _ _ => some (aggregatesOf tree.depth tree.toList)

variable {tree : MappingTree}

theorem cached_eq (balanced : tree.Balanced mappingSummary) (tidy : Tidy tree) :
    tree.cached? = cachedOf tree := by
  induction tree with
  | leaf => rfl
  | node left node cached right leftHypothesis rightHypothesis =>
    rcases balanced with ⟨ofLeft, ofRight, caches, _, _⟩
    have lower := leftHypothesis ofLeft tidy.left
    have upper := rightHypothesis ofRight tidy.right
    have ordered := (tidy.formed node (by simp)).ordered
    rw [SearchTree.cached?, caches, lower, upper]
    unfold cachedOf
    refine congrArg some ?_
    rw [SearchTree.toList_node, SearchTree.depth_node]
    change fixNode _ node _ = _
    unfold fixNode aggregatesOf
    cases left with
    | leaf =>
      cases right with
      | leaf =>
        simp [Aggregates.none, firstStart, lastStop, widestGap, sumOf, Node.len]
      | node low middle other high =>
        have full : (SearchTree.node low middle other high).toList ≠ [] := toList_ne_nil
        simp only [SearchTree.toList_leaf, List.nil_append, firstStart_cons, lastStop_cons full,
          widestGap_cons node full, sumOf_cons, Aggregates.none, Option.getD_none,
          Option.getD_some, Option.isNone_none, Option.isNone_some, SearchTree.depth_leaf]
        simp [Node.len]
        omega
    | node low middle other high =>
      have full : (SearchTree.node low middle other high).toList ≠ [] := toList_ne_nil
      have firstOnward : ∀ later,
          firstStart ((SearchTree.node low middle other high).toList ++ later) =
            firstStart (SearchTree.node low middle other high).toList :=
        fun later => firstStart_append full later
      cases right with
      | leaf =>
        simp only [SearchTree.toList_leaf, firstOnward, lastStop_append _ (List.cons_ne_nil _ _),
          widestGap_append _ full (List.cons_ne_nil _ _), sumOf_append, sumOf_cons,
          firstStart_cons, Aggregates.none, Option.getD_none, Option.getD_some,
          Option.isNone_none, Option.isNone_some, SearchTree.depth_leaf]
        simp [Node.len, lastStop, widestGap, sumOf]
        omega
      | node low' middle' other' high' =>
        have fullRight : (SearchTree.node low' middle' other' high').toList ≠ [] :=
          toList_ne_nil
        simp only [firstOnward, lastStop_append _ (List.cons_ne_nil _ _), lastStop_cons fullRight,
          widestGap_append _ full (List.cons_ne_nil _ _), widestGap_cons node fullRight,
          sumOf_append, sumOf_cons, firstStart_cons, Option.getD_some, Option.isNone_some]
        simp [Node.len]
        omega

/-- One tree is a subtree of another. -/
inductive Subtree : MappingTree -> MappingTree -> Prop
  | here {tree : MappingTree} : Subtree tree tree
  | left {sub left right : MappingTree} {node : Node} {cached : Aggregates}
      (within : Subtree sub left) : Subtree sub (.node left node cached right)
  | right {sub left right : MappingTree} {node : Node} {cached : Aggregates}
      (within : Subtree sub right) : Subtree sub (.node left node cached right)

theorem Subtree.keeps {sub : MappingTree} (within : Subtree sub tree)
    (balanced : tree.Balanced mappingSummary) (tidy : Tidy tree) :
    sub.Balanced mappingSummary ∧ Tidy sub := by
  induction within with
  | here => exact ⟨balanced, tidy⟩
  | left _ ih => exact ih balanced.1 tidy.left
  | right _ ih => exact ih balanced.2.1 tidy.right

/-! ## Charges of a range -/

/-- What mappings charge: their bytes, and how many of them count as data and as locked. -/
structure MappingCharges where
  bytes : Nat
  data : Nat
  locked : Nat
  deriving DecidableEq

/-- Charges of the part of one node inside `[start, stop)`. -/
def Node.chargesWithin (node : Node) (start stop : Nat) : MappingCharges :=
  let bytes := min node.stop stop - max node.start start
  { bytes := bytes
    data := if node.chargedData ≠ 0 then bytes else 0
    locked := if node.chargedLocked ≠ 0 then bytes else 0 }

def chargesIn (start stop : Nat) : MappingTree -> MappingCharges
  | .leaf => ⟨0, 0, 0⟩
  | .node left node cached right =>
    if cached.last <= start ∨ stop <= cached.first then ⟨0, 0, 0⟩
    else if start <= cached.first ∧ cached.last <= stop then
      ⟨cached.bytes, cached.data, cached.locked⟩
    else
      let lower := chargesIn start stop left
      let upper := chargesIn start stop right
      let own := node.chargesWithin start stop
      { bytes := lower.bytes + own.bytes + upper.bytes
        data := lower.data + own.data + upper.data
        locked := lower.locked + own.locked + upper.locked }

def Root.chargesWithin (root : Root) (range : ReservationRange) : MappingCharges :=
  chargesIn range.start range.stop root.tree

/-- The sum of the clipped charges of some nodes. -/
def chargesOf (nodes : List Node) (start stop : Nat) : MappingCharges where
  bytes := sumOf (fun node => (node.chargesWithin start stop).bytes) nodes
  data := sumOf (fun node => (node.chargesWithin start stop).data) nodes
  locked := sumOf (fun node => (node.chargesWithin start stop).locked) nodes

theorem sumOf_congr {first second : Node -> Nat}
    (same : ∀ node ∈ nodes, first node = second node) :
    sumOf first nodes = sumOf second nodes := by
  unfold sumOf
  rw [List.map_congr_left same]

theorem sumOf_zero {charge : Node -> Nat} (none : ∀ node ∈ nodes, charge node = 0) :
    sumOf charge nodes = 0 := by
  unfold sumOf
  refine List.sum_eq_zero ?_
  intro value listed
  rcases List.mem_map.mp listed with ⟨node, member, same⟩
  rw [<- same]
  exact none node member

theorem ends_bound {nodes : List Node}
    (apart : nodes.Pairwise (fun earlier later => earlier.stop <= later.start))
    (formed : ∀ node ∈ nodes, node.WellFormed) {node : Node} (member : node ∈ nodes) :
    firstStart nodes <= node.start ∧ node.stop <= lastStop nodes := by
  induction nodes generalizing node with
  | nil => cases member
  | cons first rest ih =>
    rcases List.pairwise_cons.mp apart with ⟨before, restApart⟩
    have onward := fun {other : Node} => @ih restApart
      (fun later listed => formed later (List.mem_cons_of_mem _ listed)) other
    have firstFormed := (formed first List.mem_cons_self).ordered
    rw [firstStart_cons]
    rcases List.mem_cons.mp member with same | later
    · subst same
      refine ⟨le_refl _, ?_⟩
      cases rest with
      | nil => exact le_refl _
      | cons second others =>
        have order := before second List.mem_cons_self
        have secondFormed := (formed second (by simp)).ordered
        have bound := (onward List.mem_cons_self).2
        rw [lastStop_cons (by simp)]
        omega
    · have order := before node later
      rw [lastStop_cons (List.ne_nil_of_mem later)]
      exact ⟨by omega, (onward later).2⟩

theorem chargesOf_outside {start stop : Nat}
    (outside : ∀ node ∈ nodes, node.stop <= start ∨ stop <= node.start) :
    chargesOf nodes start stop = ⟨0, 0, 0⟩ := by
  have none : ∀ node ∈ nodes, min node.stop stop - max node.start start = 0 := by
    intro node member
    have apart := outside node member
    omega
  unfold chargesOf Node.chargesWithin
  congr 1
  · exact sumOf_zero none
  · refine sumOf_zero (fun node member => ?_)
    simp only [none node member, ite_self]
  · refine sumOf_zero (fun node member => ?_)
    simp only [none node member, ite_self]

theorem clipped_whole {charge bytes : Nat} (counts : charge = bytes ∨ charge = 0) :
    (if charge ≠ 0 then bytes else 0) = charge := by
  split_ifs with some
  · omega
  · omega

theorem Node.chargedData_cases (node : Node) : node.chargedData = node.len ∨ node.chargedData = 0 := by
  unfold Node.chargedData
  split_ifs
  · exact .inl rfl
  · exact .inr rfl

theorem Node.chargedLocked_cases (node : Node) :
    node.chargedLocked = node.len ∨ node.chargedLocked = 0 := by
  unfold Node.chargedLocked
  split_ifs
  · exact .inl rfl
  · exact .inr rfl

theorem chargesOf_inside {start stop : Nat}
    (inside : ∀ node ∈ nodes, start <= node.start ∧ node.stop <= stop) :
    chargesOf nodes start stop =
      ⟨sumOf Node.len nodes, sumOf Node.chargedData nodes, sumOf Node.chargedLocked nodes⟩ := by
  have whole : ∀ node ∈ nodes, min node.stop stop - max node.start start = node.len := by
    intro node member
    have bounds := inside node member
    unfold Node.len
    omega
  unfold chargesOf Node.chargesWithin
  congr 1
  · exact sumOf_congr whole
  · refine sumOf_congr (fun node member => ?_)
    simp only [whole node member]
    exact clipped_whole node.chargedData_cases
  · refine sumOf_congr (fun node member => ?_)
    simp only [whole node member]
    exact clipped_whole node.chargedLocked_cases

theorem chargesIn_eq (start stop : Nat) (balanced : tree.Balanced mappingSummary)
    (tidy : Tidy tree) :
    chargesIn start stop tree = chargesOf tree.toList start stop := by
  induction tree with
  | leaf => rfl
  | node left node cached right leftHypothesis rightHypothesis =>
    have lower := leftHypothesis balanced.1 tidy.left
    have upper := rightHypothesis balanced.2.1 tidy.right
    have caches := Option.some.inj (cached_eq balanced tidy)
    have bounds := fun {other : Node} => @ends_bound _ tidy.apart tidy.formed other
    have firstIs : cached.first = firstStart (SearchTree.node left node cached right).toList :=
      congrArg Aggregates.first caches
    have lastIs : cached.last = lastStop (SearchTree.node left node cached right).toList :=
      congrArg Aggregates.last caches
    have bytesIs : cached.bytes = sumOf Node.len (SearchTree.node left node cached right).toList :=
      congrArg Aggregates.bytes caches
    have dataIs : cached.data =
        sumOf Node.chargedData (SearchTree.node left node cached right).toList :=
      congrArg Aggregates.data caches
    have lockedIs : cached.locked =
        sumOf Node.chargedLocked (SearchTree.node left node cached right).toList :=
      congrArg Aggregates.locked caches
    rw [chargesIn, lower, upper]
    by_cases outside : cached.last <= start ∨ stop <= cached.first
    · rw [if_pos outside]
      refine (chargesOf_outside (fun other member => ?_)).symm
      have span := bounds member
      omega
    rw [if_neg outside]
    by_cases inside : start <= cached.first ∧ cached.last <= stop
    · rw [if_pos inside, bytesIs, dataIs, lockedIs]
      refine (chargesOf_inside (fun other member => ?_)).symm
      have span := bounds member
      omega
    rw [if_neg inside]
    unfold chargesOf
    simp only [SearchTree.toList_node, sumOf_append, sumOf_cons]
    congr 1
    · omega
    · omega
    · omega

/-! ## The depth of the trees -/

/-- The loop of `avl_height_bound`: the sizes of the two smallest trees reached
so far and the height of the larger. -/
def avlHeightLoop (nodes : Nat) : Nat -> Nat -> Nat -> Nat -> Nat
  | 0, _, _, height => height
  | fuel + 1, shorter, taller, height =>
    if taller <= nodes then avlHeightLoop nodes fuel taller (taller + shorter + 1) (height + 1)
    else height

/-- The tallest balanced tree that the nodes can form; the sizes grow with
every round, so the nodes bound the rounds. -/
def avlHeightBound (nodes : Nat) : Nat := avlHeightLoop nodes (nodes + 1) 0 1 1 - 1

/-- Nodes one table's trees can draw on: the bootstrap array and every bank. -/
def treeCapacity : Nat := 1024 + 256 * 4096

def treeHeight : Nat := avlHeightBound treeCapacity

theorem avlHeightLoop_spec (nodes fuel : Nat) : ∀ height,
    nodes < SearchTree.fewest (height + 1) + fuel ->
    nodes < SearchTree.fewest (avlHeightLoop nodes fuel (SearchTree.fewest height)
      (SearchTree.fewest (height + 1)) (height + 1)) := by
  induction fuel with
  | zero =>
    intro height enough
    exact enough
  | succ fuel ih =>
    intro height enough
    rw [avlHeightLoop]
    split_ifs with fits
    · have grows := SearchTree.fewest_lt (height + 1)
      exact ih (height + 1) (by omega)
    · omega

theorem depth_le_avlHeightBound {α σ : Type} {summary : Summary α σ} {tree : SearchTree α σ}
    (balanced : tree.Balanced summary) {nodes : Nat} (small : tree.toList.length <= nodes) :
    tree.depth <= avlHeightBound nodes := by
  have bound := avlHeightLoop_spec nodes (nodes + 1) 0 (by omega)
  have least := balanced.fewest_le
  unfold avlHeightBound
  by_contra deeper
  have order : avlHeightLoop nodes (nodes + 1) 0 1 1 <= tree.depth := by omega
  have more := SearchTree.fewest_mono order
  have same : SearchTree.fewest 0 = 0 ∧ SearchTree.fewest (0 + 1) = 1 := ⟨rfl, rfl⟩
  rw [same.1, same.2, Nat.zero_add] at bound
  omega

def bitsOf (value : Nat) : Nat := if value = 0 then 0 else value.log2 + 1

theorem lt_two_pow_bitsOf (value : Nat) : value < 2 ^ bitsOf value := by
  unfold bitsOf
  split_ifs with zero
  · rw [zero]
    decide
  · exact Nat.lt_log2_self

/-- The levels that halving the capacity takes. -/
def buildDepth : Nat := bitsOf treeCapacity

/-- `build_balanced` over its stack of levels; `none` is a build that has not ended. -/
def buildBalanced (nodes : List Node) (fuel : Nat) :
    Option (Except Refusal (MappingTree × List Node)) :=
  if buildDepth < bitsOf nodes.length then some (.error .invalid)
  else
    drive (Building.step buildDepth Refusal.invalid mappingSummary) fuel
      ⟨.descend nodes.length, [], nodes⟩

theorem bitsOf_mono {first second : Nat} (order : first <= second) : bitsOf first <= bitsOf second := by
  unfold bitsOf
  by_cases zero : first = 0
  · rw [if_pos zero]
    exact Nat.zero_le _
  · have other : second ≠ 0 := by omega
    rw [if_neg zero, if_neg other]
    exact Nat.succ_le_succ ((Nat.le_log2 other).mpr ((Nat.log2_self_le zero).trans order))

theorem buildBalanced_eq (small : nodes.length <= treeCapacity) :
    ∃ enough, ∀ fuel, enough <= fuel ->
      buildBalanced nodes fuel = some (.ok (SearchTree.build mappingSummary nodes.length nodes)) := by
  have bits := bitsOf_mono small
  have power : nodes.length < 2 ^ buildDepth :=
    lt_of_lt_of_le (lt_two_pow_bitsOf _) (Nat.pow_le_pow_right (by decide) bits)
  rcases building_ends Refusal.invalid mappingSummary power with ⟨enough, ended⟩
  refine ⟨enough, fun fuel many => ?_⟩
  unfold buildBalanced
  rw [if_neg (by unfold buildDepth; omega)]
  exact ended fuel many

/-! ## Every reachable root -/

/-- The mapping tree in order, balanced and with true aggregates at every node,
so that charges can be read off the caches. -/
structure TreeShape (root : Root) : Prop where
  apart : root.tree.toList.Pairwise (fun earlier later => earlier.stop <= later.start)
  nonempty : ∀ node ∈ root.tree.toList, node.start < node.stop
  balanced : root.tree.Balanced mappingSummary
  caches : ∀ sub, Subtree sub root.tree -> sub.cached? = cachedOf sub
  charges : ∀ range : ReservationRange,
    root.chargesWithin range = chargesOf root.tree.toList range.start range.stop

/-- The walks of trees within the capacity: the two over the mapping tree end
as they would with any larger stack, the insertion into the source index and
the build of a clone are not refused. -/
structure WalksUnrefused (root : Root) : Prop where
  observes : root.tree.toList.length <= treeCapacity ->
    ∀ (W : Type) (visit : Node -> Command Refusal W Unit) (world : W) (larger fuel : Nat),
      treeHeight <= larger ->
      drive (VisitWalk.step treeHeight Refusal.invalid visit) fuel ⟨world, root.tree, []⟩ =
        drive (VisitWalk.step larger Refusal.invalid visit) fuel ⟨world, root.tree, []⟩
  copies : root.tree.toList.length <= treeCapacity ->
    ∀ (W C : Type) (steps : CopySteps Refusal W Node C) (world : W) (larger fuel : Nat),
      treeHeight <= larger ->
      drive (CopyWalk.step treeHeight Refusal.invalid steps) fuel ⟨world, root.tree, [], []⟩ =
        drive (CopyWalk.step larger Refusal.invalid steps) fuel ⟨world, root.tree, [], []⟩
  builds : root.tree.toList.length <= treeCapacity ->
    ∃ enough, ∀ fuel, enough <= fuel -> buildBalanced root.inherited fuel =
      some (.ok (SearchTree.build mappingSummary root.inherited.length root.inherited))
  indexes : root.sources.toList.length <= treeCapacity ->
    ∀ entry, insertByPath treeHeight Refusal.invalid sourceSummary SourceEntry.rank entry
        root.sources =
      .ok (root.sources.insert sourceSummary SourceEntry.rank entry)

theorem treeShape_of_tidy {root : Root} (tidy : Tidy root.tree) (shaped : Shaped root) :
    TreeShape root := by
  refine ⟨tidy.apart, fun node member => (tidy.formed node member).ordered, shaped.tree, ?_, ?_⟩
  · intro sub within
    rcases within.keeps shaped.tree tidy with ⟨balanced, tidySub⟩
    exact cached_eq balanced tidySub
  · intro range
    exact chargesIn_eq range.start range.stop shaped.tree tidy

theorem walksUnrefused {root : Root} (shaped : Shaped root) : WalksUnrefused root := by
  refine ⟨?_, ?_, ?_, ?_⟩
  · intro small W visit world larger fuel more
    exact visitWalk_unbounded more _ visit world (depth_le_avlHeightBound shaped.tree small) fuel
  · intro small W C steps world larger fuel more
    exact copyWalk_unbounded more _ steps world (depth_le_avlHeightBound shaped.tree small) fuel
  · intro small
    exact buildBalanced_eq (le_trans (List.length_filter_le _ _) small)
  · intro small entry
    exact insertByPath_eq _ _ _ _ (depth_le_avlHeightBound shaped.sources small)

/-- In every state that calls and clones lead to, whatever they answered, the
mapping tree keeps its shape and its aggregates, and no walk of either tree is
refused for its depth. -/
theorem reachable_tree_shape {root : Root} (reachable : Reachable (fun _ _ => True) root) :
    TreeShape root ∧ WalksUnrefused root :=
  ⟨treeShape_of_tidy reachable.aged.tidy reachable.shaped, walksUnrefused reachable.shaped⟩

/-- Three pages, two of them private data, and what the first two charge. -/
def threePages : List Event :=
  let plain := withLeftover none
  [⟨.importRow thirdArenaPage .read .privateMap none, plain⟩,
    ⟨.importRow firstArenaPage .readWrite .anonymousPrivate none, plain⟩,
    ⟨.importRow secondArenaPage .readWrite .privateMap none, plain⟩]

theorem reachable_tree_shape_pages :
    (runAll threePages emptyRoot).tree.toList.length = 3 ∧
      chargesOf (runAll threePages emptyRoot).tree.toList 0x6000000000 0x6000002000 =
        ⟨8192, 8192, 0⟩ := by
  have shape := reachable_tree_shape
    (reachable_runAll (.claimed emptyRoot_claimed) (allowedAll_true threePages emptyRoot))
  have charged := shape.1.charges (arenaPages 0 2 (by decide) (by decide))
  have value : (runAll threePages emptyRoot).chargesWithin
      (arenaPages 0 2 (by decide) (by decide)) = ⟨8192, 8192, 0⟩ := by
    decide +kernel
  exact ⟨by decide +kernel, charged.symm.trans value⟩

end Reservation
end Carrick
