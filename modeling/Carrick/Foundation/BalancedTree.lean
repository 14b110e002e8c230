import Carrick.Foundation.SearchTree
import Mathlib.Algebra.Group.Nat.Defs

namespace Carrick
namespace Foundation

/-!
# Balance and cached summaries

`Balanced` says two things of every node: what it caches is the summary of its
subtrees as they are, and the depths of the two differ by one at most.  Both
are needed together, since rebalancing decides by the cached heights.  They
hold whatever the order of the elements, so insertion and erasure keep them
without any fact about the keys.
-/

universe u v w

/-- The height of a summary counts levels. -/
def Summary.CountsLevels {α : Type u} {σ : Type v} (summary : Summary α σ) : Prop :=
  ∀ left value right, summary.height (summary.fix left value right) =
    1 + max ((left.map summary.height).getD 0) ((right.map summary.height).getD 0)

namespace SearchTree

variable {α : Type u} {σ : Type v} {κ : Type w}

def depth : SearchTree α σ -> Nat
  | leaf => 0
  | node left _ _ right => 1 + max left.depth right.depth

def Balanced (summary : Summary α σ) : SearchTree α σ -> Prop
  | leaf => True
  | node left value cached right =>
    left.Balanced summary ∧ right.Balanced summary ∧
      cached = summary.fix left.cached? value right.cached? ∧
      left.depth <= right.depth + 1 ∧ right.depth <= left.depth + 1

variable {summary : Summary α σ}

@[simp] theorem depth_leaf : (leaf : SearchTree α σ).depth = 0 := rfl

@[simp] theorem depth_node (left right : SearchTree α σ) (value : α) (cached : σ) :
    (node left value cached right).depth = 1 + max left.depth right.depth := rfl

@[simp] theorem depth_fix (left right : SearchTree α σ) (value : α) :
    (fix summary left value right).depth = 1 + max left.depth right.depth := rfl

@[simp] theorem balanced_leaf : (leaf : SearchTree α σ).Balanced summary := trivial

theorem Balanced.fix {left right : SearchTree α σ} {value : α} (ofLeft : left.Balanced summary)
    (ofRight : right.Balanced summary) (lower : left.depth <= right.depth + 1)
    (upper : right.depth <= left.depth + 1) : (fix summary left value right).Balanced summary :=
  ⟨ofLeft, ofRight, rfl, lower, upper⟩

theorem height_eq_depth (counts : summary.CountsLevels) {tree : SearchTree α σ}
    (balanced : tree.Balanced summary) : tree.height summary = tree.depth := by
  induction tree with
  | leaf => rfl
  | node left value cached right leftHypothesis rightHypothesis =>
    rcases balanced with ⟨ofLeft, ofRight, caches, _, _⟩
    have lower := leftHypothesis ofLeft
    have upper := rightHypothesis ofRight
    unfold height at lower upper ⊢
    rw [cached?, Option.map_some, Option.getD_some, caches, counts, lower, upper]
    rfl

theorem rotateRight_spec {left right : SearchTree α σ} (value : α)
    (ofRight : right.Balanced summary) (ofLeft : left.Balanced summary)
    (heavy : left.depth = right.depth + 2)
    (outer : ∀ first top cached second, left = node first top cached second ->
      second.depth <= first.depth) :
    (rotateRight summary value right left).Balanced summary ∧
      left.depth <= (rotateRight summary value right left).depth ∧
      (rotateRight summary value right left).depth <= 1 + left.depth := by
  cases left with
  | leaf => simp at heavy
  | node first top cached second =>
    have order := outer first top cached second rfl
    rcases ofLeft with ⟨ofFirst, ofSecond, _, lower, upper⟩
    rw [depth_node] at heavy
    refine ⟨Balanced.fix ofFirst (Balanced.fix ofSecond ofRight ?_ ?_) ?_ ?_, ?_, ?_⟩
    · omega
    · omega
    · rw [depth_fix]
      omega
    · rw [depth_fix]
      omega
    · simp only [rotateRight, depth_fix, depth_node]
      omega
    · simp only [rotateRight, depth_fix, depth_node]
      omega

theorem rotateLeft_spec {left right : SearchTree α σ} (value : α)
    (ofLeft : left.Balanced summary) (ofRight : right.Balanced summary)
    (heavy : right.depth = left.depth + 2)
    (outer : ∀ first top cached second, right = node first top cached second ->
      first.depth <= second.depth) :
    (rotateLeft summary left value right).Balanced summary ∧
      right.depth <= (rotateLeft summary left value right).depth ∧
      (rotateLeft summary left value right).depth <= 1 + right.depth := by
  cases right with
  | leaf => simp at heavy
  | node first top cached second =>
    have order := outer first top cached second rfl
    rcases ofRight with ⟨ofFirst, ofSecond, _, lower, upper⟩
    rw [depth_node] at heavy
    refine ⟨Balanced.fix (Balanced.fix ofLeft ofFirst ?_ ?_) ofSecond ?_ ?_, ?_, ?_⟩
    · omega
    · omega
    · rw [depth_fix]
      omega
    · rw [depth_fix]
      omega
    · simp only [rotateLeft, depth_fix, depth_node]
      omega
    · simp only [rotateLeft, depth_fix, depth_node]
      omega

theorem sharing_spec {first low high last : SearchTree α σ} (top middle value : α)
    (ofFirst : first.Balanced summary) (ofLow : low.Balanced summary)
    (ofHigh : high.Balanced summary) (ofLast : last.Balanced summary)
    (lower : low.depth <= high.depth + 1) (upper : high.depth <= low.depth + 1)
    (atFirst : first.depth = max low.depth high.depth)
    (atLast : last.depth = max low.depth high.depth) :
    (fix summary (fix summary first top low) middle (fix summary high value last)).Balanced summary ∧
      (fix summary (fix summary first top low) middle (fix summary high value last)).depth =
        2 + first.depth := by
  refine ⟨Balanced.fix (Balanced.fix ofFirst ofLow (by omega) (by omega))
    (Balanced.fix ofHigh ofLast (by omega) (by omega)) ?_ ?_, ?_⟩
  all_goals
    simp only [depth_fix]
    omega

theorem balance_spec (counts : summary.CountsLevels) {left right : SearchTree α σ} (value : α)
    (ofLeft : left.Balanced summary) (ofRight : right.Balanced summary)
    (lower : left.depth <= right.depth + 2) (upper : right.depth <= left.depth + 2) :
    (balance summary left value right).Balanced summary ∧
      max left.depth right.depth <= (balance summary left value right).depth ∧
      (balance summary left value right).depth <= 1 + max left.depth right.depth ∧
      ((balance summary left value right).depth = 1 + max left.depth right.depth ∨
        right.depth + 2 <= left.depth ∨ left.depth + 2 <= right.depth) := by
  unfold balance
  rw [height_eq_depth counts ofLeft, height_eq_depth counts ofRight]
  split_ifs with leftHeavy rightHeavy
  · cases left with
    | leaf => simp at leftHeavy
    | node first top cached second =>
      have parts := ofLeft
      rcases parts with ⟨ofFirst, ofSecond, caches, firstLower, firstUpper⟩
      simp only
      rw [height_eq_depth counts ofFirst, height_eq_depth counts ofSecond]
      rw [depth_node] at leftHeavy lower
      split_ifs with inner
      · cases second with
        | leaf => simp at inner
        | node low middle other high =>
          rcases ofSecond with ⟨ofLow, ofHigh, _, lowBound, highBound⟩
          rw [depth_node] at inner firstLower firstUpper leftHeavy lower
          have shared := sharing_spec top middle value ofFirst ofLow ofHigh ofRight lowBound highBound
            (by omega) (by omega)
          change Balanced summary (SearchTree.fix summary _ _ _) ∧ _ <= (SearchTree.fix summary _ _ _).depth ∧
            (SearchTree.fix summary _ _ _).depth <= _ ∧ _
          rw [shared.2, depth_node, depth_node]
          exact ⟨shared.1, by omega, by omega, by omega⟩
      · have rotated := rotateRight_spec value ofRight ofLeft (by rw [depth_node]; omega) (by
          intro a b c d shape
          cases shape
          omega)
        rw [depth_node] at rotated ⊢
        refine ⟨rotated.1, by omega, by omega, by omega⟩
  · cases right with
    | leaf => simp at rightHeavy
    | node first top cached second =>
      have parts := ofRight
      rcases parts with ⟨ofFirst, ofSecond, caches, firstLower, firstUpper⟩
      simp only
      rw [height_eq_depth counts ofFirst, height_eq_depth counts ofSecond]
      rw [depth_node] at rightHeavy upper
      split_ifs with inner
      · cases first with
        | leaf => simp at inner
        | node low middle other high =>
          rcases ofFirst with ⟨ofLow, ofHigh, _, lowBound, highBound⟩
          rw [depth_node] at inner firstLower firstUpper rightHeavy upper
          have shared := sharing_spec value middle top ofLeft ofLow ofHigh ofSecond lowBound highBound
            (by omega) (by omega)
          change Balanced summary (SearchTree.fix summary _ _ _) ∧ _ <= (SearchTree.fix summary _ _ _).depth ∧
            (SearchTree.fix summary _ _ _).depth <= _ ∧ _
          rw [shared.2, depth_node, depth_node]
          exact ⟨shared.1, by omega, by omega, by omega⟩
      · have rotated := rotateLeft_spec value ofLeft ofRight (by rw [depth_node]; omega) (by
          intro a b c d shape
          cases shape
          omega)
        rw [depth_node] at rotated ⊢
        refine ⟨rotated.1, by omega, by omega, by omega⟩
  · refine ⟨Balanced.fix ofLeft ofRight (by omega) (by omega), ?_, ?_, ?_⟩
    · rw [depth_fix]
      omega
    · rw [depth_fix]
    · exact .inl (depth_fix _ _ _)

/-! ## Insertion and erasure -/

section Keyed

variable [LinearOrder κ] {key : α -> κ}

variable {tree : SearchTree α σ}

theorem Balanced.insert (counts : summary.CountsLevels) (element : α)
    (balanced : tree.Balanced summary) :
    (tree.insert summary key element).Balanced summary ∧
      tree.depth <= (tree.insert summary key element).depth ∧
      (tree.insert summary key element).depth <= tree.depth + 1 := by
  induction tree with
  | leaf => exact ⟨Balanced.fix trivial trivial (by simp) (by simp), by simp, by simp [SearchTree.insert]⟩
  | node left value cached right leftHypothesis rightHypothesis =>
    rcases balanced with ⟨ofLeft, ofRight, _, lower, upper⟩
    rw [SearchTree.insert, depth_node]
    split
    · rcases leftHypothesis ofLeft with ⟨grown, atLeast, atMost⟩
      rcases balance_spec counts value grown ofRight (by omega) (by omega) with
        ⟨result, low, high, exact⟩
      exact ⟨result, by omega, by omega⟩
    · rcases rightHypothesis ofRight with ⟨grown, atLeast, atMost⟩
      rcases balance_spec counts value ofLeft grown (by omega) (by omega) with
        ⟨result, low, high, exact⟩
      exact ⟨result, by omega, by omega⟩

/-- What is left of a tree that lost at most one level. -/
def Shrunk (summary : Summary α σ) (before after : SearchTree α σ) : Prop :=
  after.Balanced summary ∧ after.depth <= before.depth ∧ before.depth <= after.depth + 1

variable {value : α} {cached : σ}

theorem Shrunk.left (counts : summary.CountsLevels) {left right after : SearchTree α σ}
    (balanced : (node left value cached right).Balanced summary)
    (shrunk : Shrunk summary left after) (kept : α) :
    Shrunk summary (node left value cached right) (balance summary after kept right) := by
  rcases balanced with ⟨_, ofRight, _, lower, upper⟩
  rcases shrunk with ⟨smaller, atMost, atLeast⟩
  rcases balance_spec counts kept smaller ofRight (by omega) (by omega) with
    ⟨result, low, high, exact⟩
  refine ⟨result, ?_, ?_⟩
  · rw [depth_node]
    omega
  · rw [depth_node]
    omega

theorem Shrunk.right (counts : summary.CountsLevels) {left right after : SearchTree α σ}
    (balanced : (node left value cached right).Balanced summary)
    (shrunk : Shrunk summary right after) (kept : α) :
    Shrunk summary (node left value cached right) (balance summary left kept after) := by
  rcases balanced with ⟨ofLeft, _, _, lower, upper⟩
  rcases shrunk with ⟨smaller, atMost, atLeast⟩
  rcases balance_spec counts kept ofLeft smaller (by omega) (by omega) with
    ⟨result, low, high, exact⟩
  refine ⟨result, ?_, ?_⟩
  · rw [depth_node]
    omega
  · rw [depth_node]
    omega

theorem Shrunk.only_left {left : SearchTree α σ}
    (balanced : (node left value cached leaf).Balanced summary) :
    Shrunk summary (node left value cached leaf) left := by
  rcases balanced with ⟨ofLeft, _, _, lower, upper⟩
  rw [depth_leaf] at lower
  refine ⟨ofLeft, ?_, ?_⟩
  · rw [depth_node]
    omega
  · rw [depth_node, depth_leaf]
    omega

theorem Shrunk.only_right {right : SearchTree α σ}
    (balanced : (node leaf value cached right).Balanced summary) :
    Shrunk summary (node leaf value cached right) right := by
  rcases balanced with ⟨_, ofRight, _, lower, upper⟩
  rw [depth_leaf] at upper
  refine ⟨ofRight, ?_, ?_⟩
  · rw [depth_node]
    omega
  · rw [depth_node, depth_leaf]
    omega

theorem Balanced.erase (counts : summary.CountsLevels) (balanced : tree.Balanced summary)
    (target : κ) :
    Shrunk summary tree (tree.erase summary key target) := by
  induction tree generalizing target with
  | leaf => exact ⟨trivial, le_refl _, Nat.le_succ _⟩
  | node left value cached right leftHypothesis rightHypothesis =>
    have ofLeft := balanced.1
    have ofRight := balanced.2.1
    rw [SearchTree.erase.eq_def]
    dsimp only
    split
    · exact Shrunk.left counts balanced (leftHypothesis ofLeft target) value
    split
    · exact Shrunk.right counts balanced (rightHypothesis ofRight target) value
    cases left with
    | leaf => exact Shrunk.only_right balanced
    | node first top other second =>
      dsimp only
      cases found : right.least with
      | none =>
        cases right with
        | leaf => exact Shrunk.only_left balanced
        | node low middle more high =>
          rw [least, Option.or_eq_none_iff] at found
          cases found.2
      | some successor =>
        exact Shrunk.right counts balanced (rightHypothesis ofRight (key successor)) successor

theorem Balanced.unlinkLeast (counts : summary.CountsLevels) (balanced : tree.Balanced summary)
    {smallest : α} {rest : SearchTree α σ}
    (taken : tree.unlinkLeast summary = some (smallest, rest)) : Shrunk summary tree rest := by
  induction tree generalizing smallest rest with
  | leaf => cases taken
  | node left value cached right leftHypothesis _ =>
    have ofLeft := balanced.1
    rw [SearchTree.unlinkLeast] at taken
    cases inner : left.unlinkLeast summary with
    | none =>
      rw [inner] at taken
      cases taken
      cases left with
      | leaf => exact Shrunk.only_right balanced
      | node first top other second =>
        rw [SearchTree.unlinkLeast] at inner
        cases deeper : first.unlinkLeast summary with
        | none =>
          rw [deeper] at inner
          cases inner
        | some pair =>
          rw [deeper] at inner
          cases inner
    | some pair =>
      rw [inner] at taken
      cases taken
      exact Shrunk.left counts balanced (leftHypothesis ofLeft inner) value

theorem Balanced.unlink (counts : summary.CountsLevels) (balanced : tree.Balanced summary)
    (target : κ) :
    Shrunk summary tree (tree.unlink summary key target) := by
  induction tree with
  | leaf => exact ⟨trivial, le_refl _, Nat.le_succ _⟩
  | node left value cached right leftHypothesis rightHypothesis =>
    have ofLeft := balanced.1
    have ofRight := balanced.2.1
    rw [SearchTree.unlink.eq_def]
    dsimp only
    split
    · exact Shrunk.left counts balanced (leftHypothesis ofLeft) value
    split
    · exact Shrunk.right counts balanced (rightHypothesis ofRight) value
    cases left with
    | leaf => exact Shrunk.only_right balanced
    | node first top other second =>
      dsimp only
      cases found : right.unlinkLeast summary with
      | none =>
        cases right with
        | leaf => exact Shrunk.only_left balanced
        | node low middle more high =>
          rw [SearchTree.unlinkLeast] at found
          cases deeper : low.unlinkLeast summary with
          | none =>
            rw [deeper] at found
            cases found
          | some pair =>
            rw [deeper] at found
            cases found
      | some pair =>
        exact Shrunk.right counts balanced (Balanced.unlinkLeast counts ofRight found) pair.1

/-- Rewriting an element keeps the balance when no summary sees the change. -/
theorem Balanced.modify (balanced : tree.Balanced summary) (target : κ) {change : α -> α}
    (unseen : ∀ left value right, summary.fix left (change value) right = summary.fix left
      value right) :
    (tree.modify key target change).Balanced summary ∧
      (tree.modify key target change).depth = tree.depth ∧
      (tree.modify key target change).cached? = tree.cached? := by
  induction tree with
  | leaf => exact ⟨trivial, rfl, rfl⟩
  | node left value cached right leftHypothesis rightHypothesis =>
    rcases balanced with ⟨ofLeft, ofRight, caches, lower, upper⟩
    rw [SearchTree.modify]
    split
    · rcases leftHypothesis ofLeft with ⟨ofChanged, sameDepth, sameCached⟩
      refine ⟨⟨ofChanged, ofRight, ?_, ?_, ?_⟩, ?_, rfl⟩
      · rw [sameCached]
        exact caches
      · rw [sameDepth]
        exact lower
      · rw [sameDepth]
        exact upper
      · rw [depth_node, sameDepth, depth_node]
    split
    · rcases rightHypothesis ofRight with ⟨ofChanged, sameDepth, sameCached⟩
      refine ⟨⟨ofLeft, ofChanged, ?_, ?_, ?_⟩, ?_, rfl⟩
      · rw [sameCached]
        exact caches
      · rw [sameDepth]
        exact lower
      · rw [sameDepth]
        exact upper
      · rw [depth_node, sameDepth, depth_node]
    · refine ⟨⟨ofLeft, ofRight, ?_, lower, upper⟩, rfl, rfl⟩
      rw [unseen]
      exact caches

end Keyed

/-! ## Building -/

/-- A tree built from enough elements is balanced, and `n` levels hold less than `2 ^ n`. -/
theorem build_balanced (len : Nat) {list : List α} (enough : len <= list.length) :
    (build summary len list).1.Balanced summary ∧
      ∀ levels, (build summary len list).1.depth <= levels <-> len < 2 ^ levels := by
  induction len using Nat.strongRecOn generalizing list with
  | ind len ih =>
    rw [build]
    split
    · rename_i none
      refine ⟨trivial, fun levels => ?_⟩
      rw [none]
      exact ⟨fun _ => Nat.two_pow_pos levels, fun _ => Nat.zero_le levels⟩
    rename_i some
    have room : len / 2 < list.length := by omega
    have lower := ih (len / 2) (by omega) (Nat.le_of_lt room)
    dsimp only
    rw [(build_spec summary (len / 2) (Nat.le_of_lt room)).2, List.drop_eq_getElem_cons room]
    dsimp only
    have short : len - len / 2 - 1 <= (list.drop (len / 2 + 1)).length := by
      rw [List.length_drop]
      omega
    have upper := ih (len - len / 2 - 1) (by omega) short
    rcases lower with ⟨ofLower, lowerLevels⟩
    rcases upper with ⟨ofUpper, upperLevels⟩
    have lowerSize := (lowerLevels _).mp (le_refl _)
    have upperSize := (upperLevels _).mp (le_refl _)
    refine ⟨Balanced.fix ofLower ofUpper ?_ ?_, ?_⟩
    · rw [lowerLevels, Nat.pow_succ]
      omega
    · rw [upperLevels, Nat.pow_succ]
      omega
    intro levels
    rw [depth_fix]
    cases levels with
    | zero =>
      rw [Nat.pow_zero]
      omega
    | succ levels =>
      have first := lowerLevels levels
      have second := upperLevels levels
      rw [Nat.pow_succ]
      omega

/-! ## The fewest elements of a depth -/

/-- The least number of elements of a balanced tree, by its depth. -/
def fewest : Nat -> Nat
  | 0 => 0
  | 1 => 1
  | levels + 2 => fewest (levels + 1) + fewest levels + 1

theorem fewest_lt (levels : Nat) : fewest levels < fewest (levels + 1) := by
  cases levels with
  | zero => decide
  | succ levels =>
    rw [fewest]
    omega

theorem fewest_mono {first second : Nat} (order : first <= second) : fewest first <= fewest second :=
  monotone_nat_of_le_succ (fun levels => le_of_lt (fewest_lt levels)) order

theorem Balanced.fewest_le {tree : SearchTree α σ} (balanced : tree.Balanced summary) :
    fewest tree.depth <= tree.toList.length := by
  induction tree with
  | leaf => exact Nat.zero_le _
  | node left value cached right leftHypothesis rightHypothesis =>
    rcases balanced with ⟨ofLeft, ofRight, _, lower, upper⟩
    have first := leftHypothesis ofLeft
    have second := rightHypothesis ofRight
    rw [depth_node, toList_node, List.length_append, List.length_cons]
    rcases Nat.le_total left.depth right.depth with below | above
    · rw [Nat.max_eq_right below, Nat.add_comm]
      cases deep : right.depth with
      | zero =>
        rw [fewest]
        omega
      | succ levels =>
        rw [fewest]
        rw [deep] at second upper
        have smaller := fewest_mono (by omega : levels <= left.depth)
        omega
    rw [Nat.max_eq_left above, Nat.add_comm]
    cases deep : left.depth with
    | zero =>
      rw [fewest]
      omega
    | succ levels =>
      rw [fewest]
      rw [deep] at first lower
      have smaller := fewest_mono (by omega : levels <= right.depth)
      omega

end SearchTree

end Foundation
end Carrick
