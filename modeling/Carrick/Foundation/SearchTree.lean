import Mathlib.Order.Lattice

namespace Carrick
namespace Foundation

/-!
# Height-balanced search trees with cached summaries

A node caches a summary of its subtree, computed from its own value and the
summaries of its children.  Rebalancing reads the cached heights only, so its
effect on the traversal needs no fact about them: every rotation keeps the
in-order list.  A tree is used through that list.  Insertion adds one element
to it and keeps it sorted, erasure removes one key, and the two searches find
what a scan of the list would find.
-/

universe u v w

/-- How a node summarises its subtree, and which part of that is its height. -/
structure Summary (α : Type u) (σ : Type v) where
  fix : Option σ -> α -> Option σ -> σ
  height : σ -> Nat

inductive SearchTree (α : Type u) (σ : Type v) where
  | leaf
  | node (left : SearchTree α σ) (value : α) (cached : σ) (right : SearchTree α σ)
  deriving DecidableEq

namespace SearchTree

variable {α : Type u} {σ : Type v} {κ : Type w}

def toList : SearchTree α σ -> List α
  | leaf => []
  | node left value _ right => left.toList ++ value :: right.toList

def cached? : SearchTree α σ -> Option σ
  | leaf => none
  | node _ _ cached _ => some cached

def height (summary : Summary α σ) (tree : SearchTree α σ) : Nat :=
  (tree.cached?.map summary.height).getD 0

/-- Rebuild a node, recomputing its summary from its children. -/
def fix (summary : Summary α σ) (left : SearchTree α σ) (value : α) (right : SearchTree α σ) :
    SearchTree α σ :=
  node left value (summary.fix left.cached? value right.cached?) right

def rotateLeft (summary : Summary α σ) (left : SearchTree α σ) (value : α) :
    SearchTree α σ -> SearchTree α σ
  | leaf => fix summary left value leaf
  | node inner top _ outer => fix summary (fix summary left value inner) top outer

def rotateRight (summary : Summary α σ) (value : α) (right : SearchTree α σ) :
    SearchTree α σ -> SearchTree α σ
  | leaf => fix summary leaf value right
  | node outer top _ inner => fix summary outer top (fix summary inner value right)

/-- Repair a node one of whose children may have grown or shrunk by a level. -/
def balance (summary : Summary α σ) (left : SearchTree α σ) (value : α)
    (right : SearchTree α σ) : SearchTree α σ :=
  if right.height summary + 1 < left.height summary then
    match left with
    | leaf => fix summary leaf value right
    | node outer top cached inner =>
      if outer.height summary < inner.height summary then
        rotateRight summary value right (rotateLeft summary outer top inner)
      else rotateRight summary value right (node outer top cached inner)
  else if left.height summary + 1 < right.height summary then
    match right with
    | leaf => fix summary left value leaf
    | node inner top cached outer =>
      if outer.height summary < inner.height summary then
        rotateLeft summary left value (rotateRight summary top outer inner)
      else rotateLeft summary left value (node inner top cached outer)
  else fix summary left value right

def least : SearchTree α σ -> Option α
  | leaf => none
  | node left value _ _ => left.least.or (some value)

/-- The leftmost element that satisfies a predicate which, once true along the
order, stays true: a node that fails it sends the search to the right. -/
def first (admits : α -> Bool) : SearchTree α σ -> Option α
  | leaf => none
  | node left value _ right =>
    if admits value then (left.first admits).or (some value) else right.first admits

section Keyed

variable [LinearOrder κ] (summary : Summary α σ) (key : α -> κ)

def insert (element : α) : SearchTree α σ -> SearchTree α σ
  | leaf => fix summary leaf element leaf
  | node left value _ right =>
    if key element < key value then balance summary (left.insert element) value right
    else balance summary left value (right.insert element)

/-- Erase a key.  A node with two children takes over its successor's value,
which is then erased from the right subtree. -/
def erase (target : κ) : SearchTree α σ -> SearchTree α σ
  | leaf => leaf
  | node left value _ right =>
    if target < key value then balance summary (left.erase target) value right
    else if key value < target then balance summary left value (right.erase target)
    else
      match left with
      | leaf => right
      | node _ _ _ _ =>
        match right.least with
        | none => left
        | some successor => balance summary left successor (right.erase (key successor))

/-- Take the leftmost node out, rebalancing on the way back. -/
def unlinkLeast : SearchTree α σ -> Option (α × SearchTree α σ)
  | leaf => none
  | node left value _ right =>
    match left.unlinkLeast with
    | none => some (value, right)
    | some (smallest, rest) => some (smallest, balance summary rest value right)

/-- Erase a key by relinking: a node with two children is replaced by the
leftmost node of its right subtree. -/
def unlink (target : κ) : SearchTree α σ -> SearchTree α σ
  | leaf => leaf
  | node left value _ right =>
    if target < key value then balance summary (left.unlink target) value right
    else if key value < target then balance summary left value (right.unlink target)
    else
      match left with
      | leaf => right
      | node _ _ _ _ =>
        match right.unlinkLeast summary with
        | none => left
        | some (successor, rest) => balance summary left successor rest

def lookup (target : κ) : SearchTree α σ -> Option α
  | leaf => none
  | node left value _ right =>
    if target < key value then left.lookup target
    else if key value < target then right.lookup target
    else some value

/-- Rewrite the element under a key in place. -/
def modify (target : κ) (change : α -> α) : SearchTree α σ -> SearchTree α σ
  | leaf => leaf
  | node left value cached right =>
    if target < key value then node (left.modify target change) value cached right
    else if key value < target then node left value cached (right.modify target change)
    else node left (change value) cached right

/-- The in-order list is strictly increasing in the key. -/
def Sorted (tree : SearchTree α σ) : Prop :=
  tree.toList.Pairwise (fun earlier later => key earlier < key later)

end Keyed

@[simp] theorem toList_leaf : (leaf : SearchTree α σ).toList = [] := rfl

@[simp] theorem toList_node (left right : SearchTree α σ) (value : α) (cached : σ) :
    (node left value cached right).toList = left.toList ++ value :: right.toList := rfl

section SearchTree

variable (summary : Summary α σ) (left right : SearchTree α σ) (value : α)

include summary left right value

@[simp] theorem toList_fix :
    (fix summary left value right).toList = left.toList ++ value :: right.toList := rfl

@[simp] theorem toList_rotateLeft :
    (rotateLeft summary left value right).toList = left.toList ++ value :: right.toList := by
  cases right with
  | leaf => rfl
  | node inner top cached outer => simp [rotateLeft]

@[simp] theorem toList_rotateRight :
    (rotateRight summary value right left).toList = left.toList ++ value :: right.toList := by
  cases left with
  | leaf => rfl
  | node outer top cached inner => simp [rotateRight]

/-- Rebalancing never changes the traversal, whatever the cached heights say. -/
@[simp] theorem toList_balance :
    (balance summary left value right).toList = left.toList ++ value :: right.toList := by
  unfold balance
  split
  · cases left with
    | leaf => rfl
    | node outer top cached inner =>
      dsimp only
      split <;> simp
  split
  · cases right with
    | leaf => rfl
    | node inner top cached outer =>
      dsimp only
      split <;> simp
  · rfl

end SearchTree

theorem least_eq_head? (tree : SearchTree α σ) : tree.least = tree.toList.head? := by
  induction tree with
  | leaf => rfl
  | node left value cached right leftHypothesis _ =>
    rw [least, leftHypothesis, toList_node, List.head?_append]
    rfl

/-- On a predicate that stays true along the list the search is a scan. -/
theorem first_eq_find? (admits : α -> Bool) (tree : SearchTree α σ)
    (upward : tree.toList.Pairwise (fun earlier later => admits earlier = true ->
      admits later = true)) :
    tree.first admits = tree.toList.find? admits := by
  induction tree with
  | leaf => rfl
  | node left value cached right leftHypothesis rightHypothesis =>
    rw [toList_node, List.pairwise_append] at upward
    rcases upward with ⟨leftUpward, rightUpward, across⟩
    rw [List.pairwise_cons] at rightUpward
    rw [first, toList_node, List.find?_append]
    split
    · rename_i admitted
      rw [leftHypothesis leftUpward, List.find?_cons_of_pos admitted]
    rename_i refused
    have leftRefused : left.toList.find? admits = none := by
      rw [List.find?_eq_none]
      intro earlier member admitted
      exact refused (across earlier member value List.mem_cons_self admitted)
    rw [leftRefused, Option.none_or, List.find?_cons_of_neg refused]
    exact rightHypothesis rightUpward.2

section Keyed

variable [LinearOrder κ] {summary : Summary α σ} {key : α -> κ}

theorem pairwise_parts {left right : SearchTree α σ} {value : α} :
    (left.toList ++ value :: right.toList).Pairwise
        (fun earlier later => key earlier < key later) <->
      Sorted key left ∧ Sorted key right ∧
        (∀ earlier ∈ left.toList, key earlier < key value) ∧
        (∀ later ∈ right.toList, key value < key later) := by
  rw [List.pairwise_append, List.pairwise_cons]
  constructor
  · rintro ⟨leftSorted, ⟨above, rightSorted⟩, across⟩
    exact ⟨leftSorted, rightSorted,
      fun earlier member => across earlier member value List.mem_cons_self, above⟩
  rintro ⟨leftSorted, rightSorted, below, above⟩
  refine ⟨leftSorted, ⟨above, rightSorted⟩, ?_⟩
  intro earlier member later laterMember
  rcases List.mem_cons.mp laterMember with rfl | laterMember
  · exact below earlier member
  · exact lt_trans (below earlier member) (above later laterMember)

theorem sorted_node {left right : SearchTree α σ} {value : α} {cached : σ} :
    Sorted key (node left value cached right) <->
      Sorted key left ∧ Sorted key right ∧
        (∀ earlier ∈ left.toList, key earlier < key value) ∧
        (∀ later ∈ right.toList, key value < key later) :=
  pairwise_parts

theorem insert_perm (element : α) (tree : SearchTree α σ) :
    (tree.insert summary key element).toList.Perm (element :: tree.toList) := by
  induction tree with
  | leaf => exact List.Perm.refl _
  | node left value cached right leftHypothesis rightHypothesis =>
    rw [insert]
    split
    · rw [toList_balance, toList_node, <- List.cons_append]
      exact leftHypothesis.append_right _
    · rw [toList_balance, toList_node]
      refine ((rightHypothesis.cons value).append_left _).trans ?_
      refine ((List.Perm.swap element value _).append_left _).trans ?_
      exact List.perm_middle

variable {element : α} {tree : SearchTree α σ}

theorem Sorted.insert (sorted : Sorted key tree)
    (fresh : ∀ other ∈ tree.toList, key other ≠ key element) :
    Sorted key (tree.insert summary key element) := by
  induction tree with
  | leaf => exact List.pairwise_singleton _ _
  | node left value cached right leftHypothesis rightHypothesis =>
    rcases sorted_node.mp sorted with ⟨leftSorted, rightSorted, below, above⟩
    have distinct : key value ≠ key element := fresh value (by simp)
    rw [SearchTree.insert]
    split
    · rename_i before
      unfold Sorted
      rw [toList_balance]
      refine pairwise_parts.mpr ⟨leftHypothesis leftSorted ?_, rightSorted, ?_, above⟩
      · exact fun other member => fresh other (by simp [member])
      · intro earlier member
        rcases List.mem_cons.mp ((insert_perm element left).mem_iff.mp member) with rfl | member
        · exact before
        · exact below earlier member
    rename_i notBefore
    have after : key value < key element := lt_of_le_of_ne (not_lt.mp notBefore) distinct
    unfold Sorted
    rw [toList_balance]
    refine pairwise_parts.mpr ⟨leftSorted, rightHypothesis rightSorted ?_, below, ?_⟩
    · exact fun other member => fresh other (by simp [member])
    · intro later member
      rcases List.mem_cons.mp ((insert_perm element right).mem_iff.mp member) with rfl | member
      · exact after
      · exact above later member

variable {target : κ}

private theorem filter_ne_of_forall {list : List α}
    (distinct : ∀ element ∈ list, key element ≠ target) :
    list.filter (fun element => decide (key element ≠ target)) = list :=
  List.filter_eq_self.mpr (fun element member => decide_eq_true (distinct element member))

/-- Filtering a key out of a sorted node follows the comparison with its value. -/
theorem filter_ne_node {left right : SearchTree α σ} {value : α} {cached : σ}
    (sorted : Sorted key (node left value cached right)) (target : κ) :
    (node left value cached right).toList.filter (fun element => decide (key element ≠ target)) =
      if target < key value then
        left.toList.filter (fun element => decide (key element ≠ target)) ++ value :: right.toList
      else if key value < target then
        left.toList ++ value :: right.toList.filter (fun element => decide (key element ≠ target))
      else left.toList ++ right.toList := by
  rcases sorted_node.mp sorted with ⟨_, _, below, above⟩
  rw [toList_node, List.filter_append]
  split_ifs with before after
  · have rightKept : ∀ later ∈ right.toList, key later ≠ target :=
      fun later member => ne_of_gt (lt_trans before (above later member))
    rw [List.filter_cons_of_pos (by simp [ne_of_gt before]), filter_ne_of_forall rightKept]
  · have leftKept : ∀ earlier ∈ left.toList, key earlier ≠ target :=
      fun earlier member => ne_of_lt (lt_trans (below earlier member) after)
    rw [List.filter_cons_of_pos (by simp [ne_of_lt after]), filter_ne_of_forall leftKept]
  have same : key value = target := le_antisymm (not_lt.mp before) (not_lt.mp after)
  have leftKept : ∀ earlier ∈ left.toList, key earlier ≠ target :=
    fun earlier member => ne_of_lt (same ▸ below earlier member)
  have rightKept : ∀ later ∈ right.toList, key later ≠ target :=
    fun later member => ne_of_gt (same ▸ above later member)
  rw [List.filter_cons_of_neg (by simp [same]), filter_ne_of_forall leftKept,
    filter_ne_of_forall rightKept]

theorem toList_erase (sorted : Sorted key tree) (target : κ) :
    (tree.erase summary key target).toList =
      tree.toList.filter (fun element => decide (key element ≠ target)) := by
  induction tree generalizing target with
  | leaf => rfl
  | node left value cached right leftHypothesis rightHypothesis =>
    rcases sorted_node.mp sorted with ⟨leftSorted, rightSorted, _, _⟩
    rw [erase.eq_def, filter_ne_node sorted]
    dsimp only
    split_ifs
    · rw [toList_balance, leftHypothesis leftSorted]
    · rw [toList_balance, rightHypothesis rightSorted]
    cases left with
    | leaf => rfl
    | node leftInner leftTop leftCached leftOuter =>
      have headed := least_eq_head? right
      cases found : right.least with
      | none =>
        rw [found] at headed
        have empty := List.head?_eq_none_iff.mp headed.symm
        simp [empty]
      | some successor =>
        rw [found] at headed
        rcases List.head?_eq_some_iff.mp headed.symm with ⟨rest, shape⟩
        have restAbove : ∀ later ∈ rest, key later ≠ key successor := by
          have rightOrder := rightSorted
          unfold Sorted at rightOrder
          rw [shape, List.pairwise_cons] at rightOrder
          exact fun later member => ne_of_gt (rightOrder.1 later member)
        dsimp only
        rw [toList_balance, rightHypothesis rightSorted, shape,
          List.filter_cons_of_neg (by simp), filter_ne_of_forall restAbove]

theorem mem_erase (sorted : Sorted key tree) :
    element ∈ (tree.erase summary key target).toList <->
      element ∈ tree.toList ∧ key element ≠ target := by
  rw [toList_erase sorted, List.mem_filter, decide_eq_true_eq]

theorem erase_perm (sorted : Sorted key tree) (member : element ∈ tree.toList) :
    tree.toList.Perm (element :: (tree.erase summary key (key element)).toList) := by
  rw [toList_erase sorted]
  rcases List.append_of_mem member with ⟨before, after, shape⟩
  unfold Sorted at sorted
  rw [shape, List.pairwise_append, List.pairwise_cons] at sorted
  rcases sorted with ⟨_, ⟨above, _⟩, across⟩
  have beforeKept : ∀ earlier ∈ before, key earlier ≠ key element :=
    fun earlier earlierMember => ne_of_lt (across earlier earlierMember element List.mem_cons_self)
  have afterKept : ∀ later ∈ after, key later ≠ key element :=
    fun later laterMember => ne_of_gt (above later laterMember)
  rw [shape, List.filter_append, List.filter_cons_of_neg (by simp),
    filter_ne_of_forall beforeKept, filter_ne_of_forall afterKept]
  exact List.perm_middle

theorem lookup_eq_some_iff (sorted : Sorted key tree) :
    tree.lookup key target = some element <-> element ∈ tree.toList ∧ key element = target := by
  induction tree with
  | leaf => simp [lookup]
  | node left value cached right leftHypothesis rightHypothesis =>
    rcases sorted_node.mp sorted with ⟨leftSorted, rightSorted, below, above⟩
    rw [lookup, toList_node, List.mem_append, List.mem_cons]
    split
    · rename_i before
      rw [leftHypothesis leftSorted]
      constructor
      · exact fun found => ⟨.inl found.1, found.2⟩
      · rintro ⟨member | rfl | member, same⟩
        · exact ⟨member, same⟩
        · exact absurd same (ne_of_gt before)
        · exact absurd same (ne_of_gt (lt_trans before (above element member)))
    split
    · rename_i after
      rw [rightHypothesis rightSorted]
      constructor
      · exact fun found => ⟨.inr (.inr found.1), found.2⟩
      · rintro ⟨member | rfl | member, same⟩
        · exact absurd same (ne_of_lt (lt_trans (below element member) after))
        · exact absurd same (ne_of_lt after)
        · exact ⟨member, same⟩
    rename_i notBefore notAfter
    have here : key value = target := le_antisymm (not_lt.mp notBefore) (not_lt.mp notAfter)
    rw [Option.some.injEq]
    constructor
    · rintro rfl
      exact ⟨.inr (.inl rfl), here⟩
    · rintro ⟨member | rfl | member, same⟩
      · exact absurd (same.trans here.symm) (ne_of_lt (below element member))
      · rfl
      · exact absurd (same.trans here.symm) (ne_of_gt (above element member))

theorem unlinkLeast_toList (summary : Summary α σ) (tree : SearchTree α σ) :
    (tree.unlinkLeast summary).map (fun parts => parts.1 :: parts.2.toList) =
      if tree.toList = [] then none else some tree.toList := by
  induction tree with
  | leaf => rfl
  | node left value cached right leftHypothesis _ =>
    rw [unlinkLeast, toList_node]
    cases found : left.unlinkLeast summary with
    | none =>
      rw [found] at leftHypothesis
      have empty : left.toList = [] := by
        by_contra nonempty
        rw [if_neg nonempty] at leftHypothesis
        cases leftHypothesis
      simp [empty]
    | some parts =>
      rw [found] at leftHypothesis
      split at leftHypothesis
      · cases leftHypothesis
      · have shape := Option.some.inj leftHypothesis
        simp [<- shape]

theorem toList_unlink (sorted : Sorted key tree) (target : κ) :
    (tree.unlink summary key target).toList =
      tree.toList.filter (fun element => decide (key element ≠ target)) := by
  induction tree with
  | leaf => rfl
  | node left value cached right leftHypothesis rightHypothesis =>
    rcases sorted_node.mp sorted with ⟨leftSorted, rightSorted, _, _⟩
    rw [unlink.eq_def, filter_ne_node sorted]
    dsimp only
    split_ifs
    · rw [toList_balance, leftHypothesis leftSorted]
    · rw [toList_balance, rightHypothesis rightSorted]
    cases left with
    | leaf => rfl
    | node leftInner leftTop leftCached leftOuter =>
      have taken := unlinkLeast_toList summary right
      cases found : right.unlinkLeast summary with
      | none =>
        rw [found] at taken
        have empty : right.toList = [] := by
          by_contra nonempty
          rw [if_neg nonempty] at taken
          cases taken
        simp [empty]
      | some parts =>
        rw [found] at taken
        split at taken
        · cases taken
        · dsimp only
          rw [toList_balance, <- Option.some.inj taken]

theorem Sorted.unlink (sorted : Sorted key tree) (target : κ) :
    Sorted key (tree.unlink summary key target) := by
  unfold Sorted
  rw [toList_unlink sorted]
  exact List.Pairwise.filter _ sorted

theorem Sorted.modify (sorted : Sorted key tree) {change : α -> α}
    (keeps : ∀ element, key (change element) = key element) :
    Sorted key (tree.modify key target change) := by
  have keys : (tree.modify key target change).toList.map key = tree.toList.map key := by
    clear sorted
    induction tree with
    | leaf => rfl
    | node left value cached right leftHypothesis rightHypothesis =>
      rw [SearchTree.modify]
      split
      · simp [leftHypothesis]
      · split
        · simp [rightHypothesis]
        · simp [keeps]
  have spread : (tree.toList.map key).Pairwise (fun earlier later => earlier < later) :=
    List.pairwise_map.mpr sorted
  rw [<- keys] at spread
  exact List.pairwise_map.mp spread

theorem lookup_modify (tree : SearchTree α σ) (target other : κ) {change : α -> α}
    (keeps : ∀ element, key (change element) = key element) :
    (tree.modify key target change).lookup key other =
      if other = target then (tree.lookup key other).map change else tree.lookup key other := by
  induction tree with
  | leaf => simp [modify, lookup]
  | node left value cached right leftHypothesis rightHypothesis =>
    rcases lt_trichotomy target (key value) with before | same | after
    · rw [modify, if_pos before, lookup, lookup, leftHypothesis]
      by_cases asked : other = target
      · simp [asked, before]
      · simp [asked]
    · rw [modify, if_neg (by simp [same]), if_neg (by simp [same]), lookup, lookup, keeps]
      by_cases asked : other = target
      · simp [asked, same]
      · rcases lt_or_gt_of_ne (same ▸ asked) with less | greater
        · simp [less, asked]
        · simp [greater, asked, not_lt_of_gt greater]
    · rw [modify, if_neg (not_lt_of_gt after), if_pos after, lookup, lookup, rightHypothesis]
      by_cases asked : other = target
      · simp [asked, after, not_lt_of_gt after]
      · simp [asked]

theorem lookup_insert (sorted : Sorted key tree) (fresh : tree.lookup key (key element) = none)
    (other : κ) :
    (tree.insert summary key element).lookup key other =
      if other = key element then some element else tree.lookup key other := by
  have absent : ∀ present ∈ tree.toList, key present ≠ key element := by
    intro present member same
    rw [(lookup_eq_some_iff sorted).mpr ⟨member, same⟩] at fresh
    cases fresh
  refine Option.ext (fun found => ?_)
  rw [lookup_eq_some_iff (sorted.insert absent), (insert_perm element tree).mem_iff,
    List.mem_cons]
  by_cases asked : other = key element
  · rw [if_pos asked, Option.some.injEq]
    constructor
    · rintro ⟨rfl | member, same⟩
      · rfl
      · exact absurd (same.trans asked) (absent found member)
    · rintro rfl
      exact ⟨.inl rfl, asked.symm⟩
  · rw [if_neg asked, lookup_eq_some_iff sorted]
    constructor
    · rintro ⟨rfl | member, same⟩
      · exact absurd same.symm asked
      · exact ⟨member, same⟩
    · exact fun found => ⟨.inr found.1, found.2⟩

theorem lookup_unlink (sorted : Sorted key tree) (target other : κ) :
    (tree.unlink summary key target).lookup key other =
      if other = target then none else tree.lookup key other := by
  refine Option.ext (fun found => ?_)
  rw [lookup_eq_some_iff (sorted.unlink target), toList_unlink sorted, List.mem_filter,
    decide_eq_true_eq]
  by_cases asked : other = target
  · rw [if_pos asked]
    constructor
    · rintro ⟨⟨_, different⟩, same⟩
      exact absurd (same.trans asked) different
    · intro impossible
      cases impossible
  · rw [if_neg asked, lookup_eq_some_iff sorted]
    constructor
    · exact fun found => ⟨found.1.1, found.2⟩
    · exact fun found => ⟨⟨found.1, found.2 ▸ asked⟩, found.2⟩

end Keyed

/-! ## Building a tree from a list -/

/-- The elements of a tree, each before those of its subtrees. -/
def preorder : SearchTree α σ -> List α
  | leaf => []
  | node left value _ right => value :: (left.preorder ++ right.preorder)

theorem preorder_perm (tree : SearchTree α σ) : tree.preorder.Perm tree.toList := by
  induction tree with
  | leaf => exact List.Perm.refl _
  | node left value cached right leftHypothesis rightHypothesis =>
    rw [preorder, toList_node]
    refine (List.Perm.cons value (leftHypothesis.append rightHypothesis)).trans ?_
    exact List.perm_middle.symm

/-- Take `len` elements off the list into a tree whose subtrees have half of
them each, left half first. -/
def build (summary : Summary α σ) (len : Nat) (list : List α) : SearchTree α σ × List α :=
  if len = 0 then (leaf, list)
  else
    let lower := build summary (len / 2) list
    match lower.2 with
    | [] => lower
    | value :: rest =>
      let upper := build summary (len - len / 2 - 1) rest
      (fix summary lower.1 value upper.1, upper.2)
termination_by len

theorem build_spec (summary : Summary α σ) (len : Nat) {list : List α} (enough : len <= list.length) :
    (build summary len list).1.toList = list.take len ∧
      (build summary len list).2 = list.drop len := by
  induction len using Nat.strongRecOn generalizing list with
  | ind len ih =>
    rw [build]
    split
    · rename_i none
      rw [none]
      exact ⟨rfl, rfl⟩
    rename_i some
    have room : len / 2 < list.length := by omega
    have lower := ih (len / 2) (by omega) (Nat.le_of_lt room)
    dsimp only
    rw [lower.2, List.drop_eq_getElem_cons room]
    dsimp only
    have short : len - len / 2 - 1 <= (list.drop (len / 2 + 1)).length := by
      rw [List.length_drop]
      omega
    have upper := ih (len - len / 2 - 1) (by omega) short
    rw [toList_fix, lower.1, upper.1, upper.2, List.drop_drop]
    have whole : len / 2 + 1 + (len - len / 2 - 1) = len := by omega
    refine ⟨?_, by rw [whole]⟩
    calc list.take (len / 2) ++ list[len / 2] :: (list.drop (len / 2 + 1)).take (len - len / 2 - 1)
        = list.take (len / 2 + 1) ++ (list.drop (len / 2 + 1)).take (len - len / 2 - 1) := by
          rw [List.take_succ_eq_append_getElem room, List.append_assoc]
          rfl
      _ = list.take (len / 2 + 1 + (len - len / 2 - 1)) := List.take_add.symm
      _ = list.take len := by rw [whole]

end SearchTree

end Foundation
end Carrick
