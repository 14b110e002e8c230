import Carrick.BuddyStorage.Storage

namespace Carrick
namespace BuddyStorage

open Foundation

/-!
# The node words and the buddy tree they stand for

A tree is read from the words of its split nodes and of the first unsplit node
on each path; the words below are not read.  Each loop of the allocator is
compared with the tree operation it carries out, from any node on, together
with the frame: words outside the node's subtree keep their value.
-/

theorem order_eq : order = 2 ^ 30 - 1 := by
  decide

theorem and_order (word : Nat) : word &&& order = word % 2 ^ 30 := by
  rw [order_eq, Nat.and_two_pow_sub_one_eq_mod]

theorem split_or {value : Nat} (small : value < 2 ^ 30) : split ||| value = 2 ^ 30 + value := by
  have joined := Nat.two_pow_add_eq_or_of_lt small 1
  simp only [Nat.mul_one] at joined
  exact joined.symm

theorem split_or_and_order {value : Nat} (small : value < 2 ^ 30) :
    (split ||| value) &&& order = value := by
  rw [split_or small, and_order]
  omega

theorem split_or_and_split {value : Nat} (small : value < 2 ^ 30) :
    (split ||| value) &&& split ≠ 0 := by
  rw [Nat.and_or_distrib_right, Nat.and_self, split_or (Nat.lt_of_le_of_lt Nat.and_le_left small)]
  omega

theorem small_and_split {value : Nat} (small : value < 2 ^ 30) : value &&& split = 0 := by
  rw [split, Nat.and_two_pow, Nat.testBit_lt_two_pow small]
  rfl

/-- The words from `index` down hold a tree of the given rank. -/
def Holds (nodes : Nat -> Nat) : Nat -> Nat -> BuddyTree -> Prop
  | rank, index, .free => nodes index = rank + 1
  | _, index, .taken => nodes index = allocated
  | 0, _, .split _ _ => False
  | rank + 1, index, .split left right =>
    nodes index = split ||| max (left.room rank) (right.room rank) ∧
      Holds nodes rank (index * 2) left ∧ Holds nodes rank (index * 2 + 1) right

/-- A node of the subtree of `index`. -/
def Below (index node : Nat) : Prop :=
  ∃ levels, node / 2 ^ levels = index

namespace Below

theorem refl (index : Nat) : Below index index := ⟨0, by simp⟩

theorem half {index node : Nat} (child : Nat) (is : child / 2 = index) (below : Below child node) :
    Below index node := by
  rcases below with ⟨levels, rfl⟩
  exact ⟨levels + 1, by rw [pow_succ, <- Nat.div_div_eq_div_mul, is]⟩

theorem left {index node : Nat} (below : Below (index * 2) node) : Below index node :=
  below.half _ (by omega)

theorem right {index node : Nat} (below : Below (index * 2 + 1) node) : Below index node :=
  below.half _ (by omega)

theorem le {index node : Nat} (below : Below index node) : index <= node := by
  rcases below with ⟨levels, rfl⟩
  exact Nat.div_le_self _ _

theorem not_of_lt {index node : Nat} (above : node < index) : ¬ Below index node := by
  intro below
  have bound := below.le
  omega

theorem not_both {index node : Nat} (positive : 0 < index) (inLeft : Below (index * 2) node)
    (inRight : Below (index * 2 + 1) node) : False := by
  rcases inLeft with ⟨first, leftIs⟩
  rcases inRight with ⟨second, rightIs⟩
  rcases Nat.lt_trichotomy first second with lower | same | higher
  · rcases Nat.exists_eq_add_of_lt lower with ⟨more, rfl⟩
    rw [Nat.add_assoc, pow_add, <- Nat.div_div_eq_div_mul, leftIs] at rightIs
    have bound := Nat.div_le_self (index * 2) (2 ^ (more + 1))
    omega
  · subst same
    omega
  rcases Nat.exists_eq_add_of_lt higher with ⟨more, rfl⟩
  rw [Nat.add_assoc, pow_add, <- Nat.div_div_eq_div_mul, rightIs, pow_succ',
    <- Nat.div_div_eq_div_mul] at leftIs
  have bound := Nat.div_le_self ((index * 2 + 1) / 2) (2 ^ more)
  omega

end Below

namespace Holds

theorem frame {nodes changed : Nat -> Nat} {rank index : Nat} {tree : BuddyTree}
    (holds : Holds nodes rank index tree)
    (same : ∀ node, Below index node -> changed node = nodes node) :
    Holds changed rank index tree := by
  induction rank generalizing index tree with
  | zero =>
    cases tree with
    | free => exact (same index (Below.refl index)).trans holds
    | taken => exact (same index (Below.refl index)).trans holds
    | split left right => exact holds
  | succ rank ih =>
    cases tree with
    | free => exact (same index (Below.refl index)).trans holds
    | taken => exact (same index (Below.refl index)).trans holds
    | split left right =>
      refine ⟨(same index (Below.refl index)).trans holds.1,
        ih holds.2.1 (fun node below => same node below.left),
        ih holds.2.2 (fun node below => same node below.right)⟩

section Words

variable {nodes : Nat -> Nat} {rank index : Nat} {tree : BuddyTree}

theorem room_small {rank : Nat} (small : rank + 1 < 2 ^ 30) (tree : BuddyTree) : tree.room rank < 2 ^ 30 :=
  Nat.lt_of_le_of_lt (BuddyTree.room_le rank tree) small

theorem rooms_small {rank : Nat} (small : rank + 1 + 1 < 2 ^ 30) (left right : BuddyTree) :
    max (left.room rank) (right.room rank) < 2 ^ 30 :=
  Nat.max_lt.mpr ⟨room_small (by omega) left, room_small (by omega) right⟩

section Holds

variable (small : rank + 1 < 2 ^ 30) (holds : Holds nodes rank index tree)

include small holds

theorem word_order :
    nodes index &&& order = tree.room rank := by
  cases tree with
  | free =>
    rw [show nodes index = rank + 1 by cases rank <;> exact holds, and_order,
      Nat.mod_eq_of_lt small, BuddyTree.room.eq_def]
  | taken =>
    rw [show nodes index = allocated by cases rank <;> exact holds]
    cases rank <;> rfl
  | split left right =>
    cases rank with
    | zero => exact holds.elim
    | succ rank =>
      rw [holds.1, split_or_and_order (rooms_small small left right)]
      rfl

/-- The split flag tells a split range from one that speaks for itself. -/
theorem word_split :
    nodes index &&& split = 0 <-> tree = .free ∨ tree = .taken := by
  cases tree with
  | free =>
    have word : nodes index = rank + 1 := by cases rank <;> exact holds
    simp [word, small_and_split small]
  | taken =>
    have word : nodes index = allocated := by cases rank <;> exact holds
    simp only [word, reduceCtorEq, or_true, iff_true]
    decide
  | split left right =>
    cases rank with
    | zero => exact holds.elim
    | succ rank =>
      rw [holds.1]
      simp [split_or_and_split (rooms_small small left right)]

theorem word_free :
    nodes index = rank + 1 <-> tree = .free := by
  constructor
  · intro word
    have full := word_order small holds
    rw [word, and_order, Nat.mod_eq_of_lt small] at full
    exact BuddyTree.room_full (Nat.le_of_eq full)
  · rintro rfl
    cases rank <;> exact holds

theorem word_taken :
    nodes index = allocated <-> tree = .taken := by
  cases tree with
  | free =>
    have word : nodes index = rank + 1 := by cases rank <;> exact holds
    simp only [word, reduceCtorEq, iff_false, allocated]
    omega
  | taken =>
    have word : nodes index = allocated := by cases rank <;> exact holds
    simp [word]
  | split left right =>
    cases rank with
    | zero => exact holds.elim
    | succ rank =>
      have bound := rooms_small small left right
      rw [holds.1, split_or bound]
      simp only [reduceCtorEq, iff_false, allocated]
      omega

end Holds

end Words

end Holds

/-- The walk upwards for a known number of levels. -/
def ascendBy (parent : Nat -> Nat -> Nat -> Nat) : Nat -> (Nat -> Nat) -> Nat -> Nat -> Nat -> Nat
  | 0, nodes, _, _ => nodes
  | levels + 1, nodes, index, below =>
    ascendBy parent levels
      (Function.update nodes (index / 2)
        (parent (below + 1) (nodes (index / 2 * 2)) (nodes (index / 2 * 2 + 1))))
      (index / 2) (below + 1)

variable {nodes : Nat -> Nat}

theorem ascend_eq (parent : Nat -> Nat -> Nat -> Nat) {levels fuel : Nat}
    {index below : Nat} (root : index / 2 ^ levels = 1) (enough : levels <= fuel) :
    ascend parent fuel nodes index below = ascendBy parent levels nodes index below := by
  induction levels generalizing fuel nodes index below with
  | zero =>
    have one : index = 1 := by simpa using root
    subst one
    cases fuel <;> simp [ascend, ascendBy]
  | succ levels ih =>
    cases fuel with
    | zero => omega
    | succ fuel =>
      have above : index / 2 / 2 ^ levels = 1 := by
        rw [Nat.div_div_eq_div_mul, Nat.mul_comm, <- pow_succ, root]
      have large : index > 1 := by
        by_contra small
        have none : index / 2 = 0 := by omega
        rw [none, Nat.zero_div] at above
        omega
      simp only [ascend, ascendBy, if_pos large]
      exact ih above (by omega)

theorem ascendBy_succ (parent : Nat -> Nat -> Nat -> Nat) (levels : Nat) (nodes : Nat -> Nat)
    {index top : Nat} (below : Nat) (is : index / 2 ^ (levels + 1) = top) :
    ascendBy parent (levels + 1) nodes index below =
      Function.update (ascendBy parent levels nodes index below) top
        (parent (below + levels + 1) (ascendBy parent levels nodes index below (top * 2))
          (ascendBy parent levels nodes index below (top * 2 + 1))) := by
  induction levels generalizing nodes index below with
  | zero =>
    have half : index / 2 = top := by simpa using is
    simp [ascendBy, half]
  | succ levels ih =>
    have above : index / 2 / 2 ^ (levels + 1) = top := by
      rw [Nat.div_div_eq_div_mul, Nat.mul_comm, <- pow_succ, is]
    rw [ascendBy, ih _ _ above, ascendBy]
    congr 2
    omega

/-- What a walk below `index` has done: the words hold `tree` there and are
untouched elsewhere. -/
structure Rewrites (before after : Nat -> Nat) (rank index : Nat) (tree : BuddyTree) : Prop where
  holds : Holds after rank index tree
  frame : ∀ node, ¬ Below index node -> after node = before node

section Parents

variable {before after : Nat -> Nat} {rank index : Nat} {left right : BuddyTree}

theorem Holds.update_above {child : Nat} {tree : BuddyTree} (holds : Holds after rank child tree)
    (above : index < child) (word : Nat) :
    Holds (Function.update after index word) rank child tree := by
  refine holds.frame ?_
  intro node below
  have apart : node ≠ index := by
    rintro rfl
    exact Below.not_of_lt above below
  exact Function.update_of_ne apart _ _

theorem Rewrites.right_kept (positive : 0 < index)
    (inner : Rewrites before after rank (index * 2) left)
    (other : Holds before rank (index * 2 + 1) right) :
    Holds after rank (index * 2 + 1) right :=
  other.frame (fun node below =>
    inner.frame node (fun inLeft => Below.not_both positive inLeft below))

theorem Rewrites.left_kept (positive : 0 < index)
    (inner : Rewrites before after rank (index * 2 + 1) right)
    (other : Holds before rank (index * 2) left) :
    Holds after rank (index * 2) left :=
  other.frame (fun node below =>
    inner.frame node (fun inRight => Below.not_both positive below inRight))

theorem update_frame {word : Nat}
    (kept : ∀ node, ¬ Below index node -> after node = before node) :
    ∀ node, ¬ Below index node -> Function.update after index word node = before node := by
  intro node outside
  have apart : node ≠ index := by
    rintro rfl
    exact outside (Below.refl _)
  rw [Function.update_of_ne apart]
  exact kept node outside

section Holds

variable (positive : 0 < index) (small : rank + 1 < 2 ^ 30)
  (leftHolds : Holds after rank (index * 2) left)
  (rightHolds : Holds after rank (index * 2 + 1) right)
  (kept : ∀ node, ¬ Below index node -> after node = before node)

include positive small leftHolds rightHolds kept

theorem Rewrites.split (parentOrder : Nat) :
    Rewrites before
      (Function.update after index
        (splitWord parentOrder (after (index * 2)) (after (index * 2 + 1))))
      (rank + 1) index (.split left right) where
  holds := by
    refine ⟨?_, leftHolds.update_above (by omega) _, rightHolds.update_above (by omega) _⟩
    rw [Function.update_self, splitWord, leftHolds.word_order small, rightHolds.word_order small]
  frame := update_frame kept

theorem Rewrites.join :
    Rewrites before
      (Function.update after index
        (joinWord (rank + 2) (after (index * 2)) (after (index * 2 + 1))))
      (rank + 1) index (BuddyTree.join left right) where
  holds := by
    by_cases both : left = .free ∧ right = .free
    · have words : after (index * 2) = rank + 2 - 1 ∧ after (index * 2 + 1) = rank + 2 - 1 :=
        ⟨(leftHolds.word_free small).mpr both.1, (rightHolds.word_free small).mpr both.2⟩
      rw [joinWord, if_pos words, BuddyTree.join, if_pos both]
      exact Function.update_self _ _ _
    have words : ¬ (after (index * 2) = rank + 2 - 1 ∧ after (index * 2 + 1) = rank + 2 - 1) :=
      fun equal => both
        ⟨(leftHolds.word_free small).mp equal.1, (rightHolds.word_free small).mp equal.2⟩
    rw [joinWord, if_neg words, BuddyTree.join, if_neg both]
    exact (Rewrites.split positive small leftHolds rightHolds kept (rank + 2)).holds
  frame := update_frame kept

end Holds

end Parents

/-- The halves of a node when an allocation passes it: an unsplit free range
gets two free halves. -/
theorem halves_hold (rank : Nat) {index : Nat} {tree : BuddyTree}
    (small : rank + 2 < 2 ^ 30) (holds : Holds nodes (rank + 1) index tree)
    (untaken : tree ≠ .taken) (passed : Nat -> Nat)
    (is : passed = if nodes index &&& split = 0 then
      Function.update (Function.update nodes (index * 2) (rank + 1)) (index * 2 + 1) (rank + 1)
      else nodes) :
    Holds passed rank (index * 2) tree.leftHalf ∧
      Holds passed rank (index * 2 + 1) tree.rightHalf ∧
      ∀ node, ¬ Below index node -> passed node = nodes node := by
  subst is
  cases tree with
  | free =>
    rw [if_pos ((holds.word_split (by omega)).mpr (.inl rfl))]
    refine ⟨?_, ?_, ?_⟩
    · have word : Function.update (Function.update nodes (index * 2) (rank + 1))
          (index * 2 + 1) (rank + 1) (index * 2) = rank + 1 := by
        rw [Function.update_of_ne (by omega), Function.update_self]
      cases rank <;> exact word
    · have word : Function.update (Function.update nodes (index * 2) (rank + 1))
          (index * 2 + 1) (rank + 1) (index * 2 + 1) = rank + 1 := Function.update_self _ _ _
      cases rank <;> exact word
    intro node outside
    have notLeft : node ≠ index * 2 := by
      rintro rfl
      exact outside (Below.refl _).left
    have notRight : node ≠ index * 2 + 1 := by
      rintro rfl
      exact outside (Below.refl _).right
    rw [Function.update_of_ne notRight, Function.update_of_ne notLeft]
  | taken => exact absurd rfl untaken
  | split left right =>
    have flagged : ¬ nodes index &&& split = 0 := by
      intro clear
      rcases (holds.word_split (by omega)).mp clear with same | same <;> cases same
    rw [if_neg flagged]
    exact ⟨holds.2.1, holds.2.2, fun _ _ => rfl⟩

/-- The walk down, the store and the walk up carve the tree's first block that
is large enough. -/
theorem descend_spec (target : Nat) {levels index : Nat} (offset : Nat)
    {tree : BuddyTree} (positive : 0 < index) (small : target + levels + 1 < 2 ^ 30)
    (holds : Holds nodes (target + levels) index tree)
    (large : target + 1 <= tree.room (target + levels)) :
    (descend (target + 1) levels nodes index offset).2.1 / 2 ^ levels = index ∧
      (descend (target + 1) levels nodes index offset).2.2 =
        offset + 4096 * (tree.carve target levels).2 ∧
      Rewrites nodes
        (ascendBy splitWord levels
          (Function.update (descend (target + 1) levels nodes index offset).1
            (descend (target + 1) levels nodes index offset).2.1 allocated)
          (descend (target + 1) levels nodes index offset).2.1 (target + 1))
        (target + levels) index (tree.carve target levels).1 := by
  induction levels generalizing nodes index offset tree with
  | zero =>
    refine ⟨by simp [descend], by simp [descend, BuddyTree.carve], ?_⟩
    constructor
    case holds =>
      simp only [descend, ascendBy, BuddyTree.carve]
      cases target <;> exact Function.update_self _ _ _
    case frame =>
      simp only [descend, ascendBy]
      exact update_frame (fun _ _ => rfl)
  | succ levels ih =>
    have untaken : tree ≠ .taken := by
      rintro rfl
      simp [BuddyTree.room] at large
    have halves : target + 1 <= tree.leftHalf.room (target + levels) ∨
        target + 1 <= tree.rightHalf.room (target + levels) :=
      BuddyTree.room_halves (by omega) (by omega) large
    have bytes : 4096 <<< (target + 1 + levels - 1) = 4096 * 2 ^ (target + levels) := by
      rw [Nat.shiftLeft_eq]
      congr 2
      omega
    have sameOrder : target + 1 + levels = target + levels + 1 := by omega
    have smaller : target + levels + 1 < 2 ^ 30 := by omega
    generalize passedIs : (if nodes index &&& split = 0 then
      Function.update (Function.update nodes (index * 2) (target + 1 + levels)) (index * 2 + 1)
        (target + 1 + levels) else nodes) = passed
    rcases halves_hold (target + levels) (by omega) holds untaken passed (by rw [<- passedIs, sameOrder]) with
      ⟨leftHolds, rightHolds, kept⟩
    have leftOrder := leftHolds.word_order (by omega)
    simp only [descend, passedIs, BuddyTree.carve, leftOrder, bytes]
    split
    case isTrue full =>
      have inRight : target + 1 <= tree.rightHalf.room (target + levels) := by omega
      rcases ih (offset + 4096 * 2 ^ (target + levels)) (by omega)
        (by omega) rightHolds inRight with ⟨leaf, place, inner⟩
      have top : (descend (target + 1) levels passed (index * 2 + 1)
          (offset + 4096 * 2 ^ (target + levels))).2.1 / 2 ^ (levels + 1) = index := by
        rw [pow_succ, <- Nat.div_div_eq_div_mul, leaf]
        omega
      refine ⟨top, by rw [place, Nat.mul_add, Nat.add_assoc], ?_⟩
      rw [ascendBy_succ splitWord levels _ (target + 1) top]
      exact Rewrites.split positive smaller (inner.left_kept positive leftHolds) inner.holds
        (fun node outside => (inner.frame node (fun below => outside below.right)).trans
          (kept node outside)) _
    case isFalse fits =>
      have inLeft : target + 1 <= tree.leftHalf.room (target + levels) := by omega
      rcases ih offset (by omega) (by omega) leftHolds inLeft with
        ⟨leaf, place, inner⟩
      have top : (descend (target + 1) levels passed (index * 2) offset).2.1 /
          2 ^ (levels + 1) = index := by
        rw [pow_succ, <- Nat.div_div_eq_div_mul, leaf]
        omega
      refine ⟨top, place, ?_⟩
      rw [ascendBy_succ splitWord levels _ (target + 1) top]
      exact Rewrites.split positive smaller inner.holds (inner.right_kept positive rightHolds)
        (fun node outside => (inner.frame node (fun below => outside below.left)).trans
          (kept node outside)) _

/-- The walk of a release finds the block exactly when the tree has it, and
the store and the walk up give it back. -/
theorem locate_spec (target : Nat) {levels : Nat} (index offset : Nat)
    {tree : BuddyTree} (positive : 0 < index) (small : target + levels + 1 < 2 ^ 30)
    (holds : Holds nodes (target + levels) index tree) :
    match tree.giveBack target levels offset with
    | none =>
      ∀ leaf, locate (target + 1) nodes levels index (4096 * offset) = some leaf ->
        nodes leaf ≠ allocated
    | some after =>
      ∃ leaf, locate (target + 1) nodes levels index (4096 * offset) = some leaf ∧
        nodes leaf = allocated ∧ leaf / 2 ^ levels = index ∧
        Rewrites nodes
          (ascendBy joinWord levels (Function.update nodes leaf (target + 1)) leaf (target + 1))
          (target + levels) index after := by
  induction levels generalizing index offset tree with
  | zero =>
    have word := holds.word_taken small
    cases tree with
    | free =>
      intro leaf found taken
      simp only [locate, Option.some.injEq] at found
      rw [<- found, word] at taken
      cases taken
    | taken =>
      refine ⟨index, rfl, word.mpr rfl, by simp, ?_⟩
      constructor
      case holds =>
        simp only [ascendBy]
        cases target <;> exact Function.update_self _ _ _
      case frame =>
        simp only [ascendBy]
        exact update_frame (fun _ _ => rfl)
    | split left right =>
      intro leaf found taken
      simp only [locate, Option.some.injEq] at found
      rw [<- found, word] at taken
      cases taken
  | succ levels ih =>
    have bytes : 4096 <<< (target + 1 + levels - 1) = 4096 * 2 ^ (target + levels) := by
      rw [Nat.shiftLeft_eq]
      congr 2
      omega
    have flag := holds.word_split small
    cases tree with
    | free =>
      intro leaf found
      simp [locate, flag.mpr (.inl rfl)] at found
    | taken =>
      intro leaf found
      simp [locate, flag.mpr (.inr rfl)] at found
    | split left right =>
      have flagged : ¬ nodes index &&& split = 0 := by
        intro clear
        rcases flag.mp clear with same | same <;> cases same
      have remainder : 4096 * offset % (4096 * 2 ^ (target + levels)) =
          4096 * (offset % 2 ^ (target + levels)) := Nat.mul_mod_mul_left _ _ _
      have positiveBytes : 0 < 4096 := by decide
      have smaller : target + levels + 1 < 2 ^ 30 := by omega
      have parentOrder : target + 1 + levels + 1 = target + levels + 2 := by omega
      simp only [locate, if_neg flagged, bytes, remainder, BuddyTree.giveBack, ge_iff_le,
        Nat.mul_le_mul_left_iff positiveBytes]
      split
      case h_1 missing =>
        split at missing
        case isTrue high =>
          rw [if_pos high]
          have inner := ih (index * 2 + 1)
            (offset % 2 ^ (target + levels)) (by omega) smaller holds.2.2
          rw [Option.map_eq_none_iff.mp missing] at inner
          exact inner
        case isFalse low =>
          rw [if_neg low]
          have inner := ih (index * 2)
            (offset % 2 ^ (target + levels)) (by omega) smaller holds.2.1
          rw [Option.map_eq_none_iff.mp missing] at inner
          exact inner
      case h_2 after given =>
        split at given
        case isTrue high =>
          rw [if_pos high]
          have inner := ih (index * 2 + 1)
            (offset % 2 ^ (target + levels)) (by omega) smaller holds.2.2
          rcases Option.map_eq_some_iff.mp given with ⟨half, found, rfl⟩
          rw [found] at inner
          rcases inner with ⟨leaf, reached, taken, above, inner⟩
          have top : leaf / 2 ^ (levels + 1) = index := by
            rw [pow_succ, <- Nat.div_div_eq_div_mul, above]
            omega
          refine ⟨leaf, reached, taken, top, ?_⟩
          rw [ascendBy_succ joinWord levels _ (target + 1) top, parentOrder]
          exact Rewrites.join positive smaller (inner.left_kept positive holds.2.1) inner.holds
            (fun node outside => inner.frame node (fun below => outside below.right))
        case isFalse low =>
          rw [if_neg low]
          have inner := ih (index * 2)
            (offset % 2 ^ (target + levels)) (by omega) smaller holds.2.1
          rcases Option.map_eq_some_iff.mp given with ⟨half, found, rfl⟩
          rw [found] at inner
          rcases inner with ⟨leaf, reached, taken, above, inner⟩
          have top : leaf / 2 ^ (levels + 1) = index := by
            rw [pow_succ, <- Nat.div_div_eq_div_mul, above]
            omega
          refine ⟨leaf, reached, taken, top, ?_⟩
          rw [ascendBy_succ joinWord levels _ (target + 1) top, parentOrder]
          exact Rewrites.join positive smaller inner.holds (inner.right_kept positive holds.2.2)
            (fun node outside => inner.frame node (fun below => outside below.left))

end BuddyStorage
end Carrick
