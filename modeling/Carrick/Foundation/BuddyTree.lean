import Mathlib.Data.List.Perm.Basic
import Mathlib.Tactic.Common
import Mathlib.Tactic.Ring

namespace Carrick
namespace Foundation

/-!
# Buddy trees

A buddy tree of rank `n` divides a range of `2 ^ n` units into halves until
every part is free or taken as a whole.  A split whose halves are both free is
never kept, so the tree is determined by the blocks taken in it.  The order of
a free block is one more than its rank; order zero stands for no free block.
-/

/-- The states of a range in a buddy tree: wholly free, handed out as one block,
or split into two halves. -/
inductive BuddyTree where
  | free
  | taken
  | split (left right : BuddyTree)
  deriving DecidableEq

namespace BuddyTree

/-- A tree that fits its rank: a split has halves to divide and keeps no pair
of free halves. -/
def Fits : Nat -> BuddyTree -> Prop
  | _, .free => True
  | _, .taken => True
  | 0, .split _ _ => False
  | rank + 1, .split left right =>
    Fits rank left ∧ Fits rank right ∧ ¬ (left = .free ∧ right = .free)

/-- The order of the largest free block. -/
def room : Nat -> BuddyTree -> Nat
  | rank, .free => rank + 1
  | _, .taken => 0
  | 0, .split _ _ => 0
  | rank + 1, .split left right => max (room rank left) (room rank right)

/-- The taken blocks of a tree over the range that starts at `base`, as first
unit and rank. -/
def blocks : Nat -> Nat -> BuddyTree -> List (Nat × Nat)
  | _, _, .free => []
  | rank, base, .taken => [(base, rank)]
  | 0, _, .split _ _ => []
  | rank + 1, base, .split left right =>
    blocks rank base left ++ blocks rank (base + 2 ^ rank) right

def Covers (block : Nat × Nat) (unit : Nat) : Prop :=
  block.1 <= unit ∧ unit < block.1 + 2 ^ block.2

/-- Two blocks have no unit in common. -/
def Apart (one other : Nat × Nat) : Prop :=
  one.1 + 2 ^ one.2 <= other.1 ∨ other.1 + 2 ^ other.2 <= one.1

/-- The left half of a range, before or after it is split. -/
def leftHalf : BuddyTree -> BuddyTree
  | .free => .free
  | .taken => .taken
  | .split left _ => left

/-- The right half of a range, before or after it is split. -/
def rightHalf : BuddyTree -> BuddyTree
  | .free => .free
  | .taken => .taken
  | .split _ right => right

/-- Takes a block of rank `target` in a tree of rank `target + levels`: the
left half is used when it has room.  Returns the tree and the block's offset
from the start of the range. -/
def carve (target : Nat) : Nat -> BuddyTree -> BuddyTree × Nat
  | 0, _ => (.taken, 0)
  | levels + 1, tree =>
    if room (target + levels) tree.leftHalf < target + 1 then
      let inner := carve target levels tree.rightHalf
      (.split tree.leftHalf inner.1, 2 ^ (target + levels) + inner.2)
    else
      let inner := carve target levels tree.leftHalf
      (.split inner.1 tree.rightHalf, inner.2)

/-- Joins two halves; a pair of free halves is one free range. -/
def join (left right : BuddyTree) : BuddyTree :=
  if left = .free ∧ right = .free then .free else .split left right

/-- Gives back the block of rank `target` at an offset of a tree of rank
`target + levels`, when there is one. -/
def giveBack (target : Nat) : Nat -> Nat -> BuddyTree -> Option BuddyTree
  | 0, _, .taken => some .free
  | 0, _, _ => none
  | levels + 1, offset, .split left right =>
    if 2 ^ (target + levels) <= offset then
      (giveBack target levels (offset % 2 ^ (target + levels)) right).map (join left)
    else
      (giveBack target levels (offset % 2 ^ (target + levels)) left).map (join · right)
  | _ + 1, _, _ => none

@[simp]
theorem room_free (rank : Nat) : room rank .free = rank + 1 := by
  cases rank <;> rfl

@[simp]
theorem room_taken (rank : Nat) : room rank .taken = 0 := by
  cases rank <;> rfl

@[simp]
theorem room_unit (left right : BuddyTree) : room 0 (.split left right) = 0 :=
  rfl

@[simp]
theorem room_split (rank : Nat) (left right : BuddyTree) :
    room (rank + 1) (.split left right) = max (room rank left) (room rank right) :=
  rfl

@[simp]
theorem blocks_free (rank base : Nat) : blocks rank base .free = [] := by
  cases rank <;> rfl

@[simp]
theorem blocks_taken (rank base : Nat) : blocks rank base .taken = [(base, rank)] := by
  cases rank <;> rfl

@[simp]
theorem blocks_unit (base : Nat) (left right : BuddyTree) :
    blocks 0 base (.split left right) = [] :=
  rfl

@[simp]
theorem blocks_split (rank base : Nat) (left right : BuddyTree) :
    blocks (rank + 1) base (.split left right) =
      blocks rank base left ++ blocks rank (base + 2 ^ rank) right :=
  rfl

variable {rank base : Nat}

theorem aligned_left (aligned : 2 ^ (rank + 1) ∣ base) : 2 ^ rank ∣ base :=
  (Nat.pow_dvd_pow 2 (Nat.le_succ rank)).trans aligned

theorem aligned_right (aligned : 2 ^ (rank + 1) ∣ base) :
    2 ^ rank ∣ base + 2 ^ rank :=
  Nat.dvd_add (aligned_left aligned) (dvd_refl _)

theorem room_le (rank : Nat) (tree : BuddyTree) : room rank tree <= rank + 1 := by
  induction rank generalizing tree with
  | zero =>
    cases tree <;> simp
  | succ rank ih =>
    cases tree with
    | free => simp
    | taken => simp
    | split left right =>
      have leftBound := ih left
      have rightBound := ih right
      simp only [room_split]
      omega

variable {tree : BuddyTree}

theorem room_full (full : rank + 1 <= room rank tree) :
    tree = .free := by
  cases tree with
  | free => rfl
  | taken => simp at full
  | split left right =>
    cases rank with
    | zero => simp at full
    | succ rank =>
      have leftBound := room_le rank left
      have rightBound := room_le rank right
      simp only [room_split] at full
      omega

theorem fits_leftHalf (fits : Fits (rank + 1) tree) :
    Fits rank tree.leftHalf := by
  cases tree with
  | free => simp [leftHalf, Fits]
  | taken => simp [leftHalf, Fits]
  | split left right => exact fits.1

theorem fits_rightHalf (fits : Fits (rank + 1) tree) :
    Fits rank tree.rightHalf := by
  cases tree with
  | free => simp [rightHalf, Fits]
  | taken => simp [rightHalf, Fits]
  | split left right => exact fits.2.1

theorem room_halves {wanted : Nat} (bound : wanted <= rank + 1) (positive : 0 < wanted)
    (large : wanted <= room (rank + 1) tree) :
    wanted <= room rank tree.leftHalf ∨ wanted <= room rank tree.rightHalf := by
  cases tree with
  | free => exact .inl (by simpa [leftHalf] using bound)
  | taken =>
    simp only [room_taken] at large
    omega
  | split left right =>
    simp only [room_split] at large
    simp only [leftHalf, rightHalf]
    omega

/-- With room in it, the halves of a range hold the blocks of the range. -/
theorem blocks_halves (rank base : Nat) (present : tree ≠ .taken) :
    blocks (rank + 1) base tree =
      blocks rank base tree.leftHalf ++ blocks rank (base + 2 ^ rank) tree.rightHalf := by
  cases tree with
  | free => simp [leftHalf, rightHalf]
  | taken => exact absurd rfl present
  | split left right => simp [leftHalf, rightHalf]

theorem blocks_join (left right : BuddyTree) :
    blocks (rank + 1) base (join left right) =
      blocks rank base left ++ blocks rank (base + 2 ^ rank) right := by
  unfold join
  split
  case isTrue both =>
    rw [both.1, both.2]
    simp
  case isFalse => simp

theorem fits_join {left right : BuddyTree} (leftFits : Fits rank left)
    (rightFits : Fits rank right) : Fits (rank + 1) (join left right) := by
  unfold join
  split
  case isTrue => simp [Fits]
  case isFalse split => exact ⟨leftFits, rightFits, split⟩

/-- Every block lies in the range and is aligned to its own size there. -/
theorem blocks_within {block : Nat × Nat} (aligned : 2 ^ rank ∣ base)
    (member : block ∈ blocks rank base tree) :
    base <= block.1 ∧ block.1 + 2 ^ block.2 <= base + 2 ^ rank ∧ 2 ^ block.2 ∣ block.1 := by
  induction rank generalizing base tree with
  | zero =>
    cases tree with
    | free => simp at member
    | taken =>
      simp only [blocks_taken, List.mem_singleton] at member
      subst member
      exact ⟨le_rfl, le_rfl, aligned⟩
    | split left right => simp at member
  | succ rank ih =>
    cases tree with
    | free => simp at member
    | taken =>
      simp only [blocks_taken, List.mem_singleton] at member
      subst member
      exact ⟨le_rfl, le_rfl, aligned⟩
    | split left right =>
      have twice : 2 ^ (rank + 1) = 2 ^ rank + 2 ^ rank := by ring
      simp only [blocks_split, List.mem_append] at member
      rcases member with member | member
      · have inside := ih (aligned_left aligned) member
        exact ⟨inside.1, by omega, inside.2.2⟩
      · have inside := ih (aligned_right aligned) member
        exact ⟨by omega, by omega, inside.2.2⟩

theorem blocks_apart (aligned : 2 ^ rank ∣ base) :
    (blocks rank base tree).Pairwise Apart := by
  induction rank generalizing base tree with
  | zero => cases tree <;> simp
  | succ rank ih =>
    cases tree with
    | free => simp
    | taken => simp
    | split left right =>
      have halfAligned := aligned_left aligned
      have rightAligned := aligned_right aligned
      simp only [blocks_split]
      refine List.pairwise_append.mpr
        ⟨ih halfAligned, ih rightAligned, ?_⟩
      intro one inLeft other inRight
      have first := blocks_within halfAligned inLeft
      have second := blocks_within rightAligned inRight
      exact .inl (by omega)

theorem blocks_length (rank base : Nat) (tree : BuddyTree) :
    (blocks rank base tree).length <= 2 ^ rank := by
  induction rank generalizing base tree with
  | zero => cases tree <;> simp
  | succ rank ih =>
    have twice : 2 ^ (rank + 1) = 2 ^ rank + 2 ^ rank := by ring
    have positive : 0 < 2 ^ rank := Nat.two_pow_pos rank
    cases tree with
    | free => simp
    | taken =>
      simp only [blocks_taken, List.length_singleton]
      omega
    | split left right =>
      have leftBound := ih base left
      have rightBound := ih (base + 2 ^ rank) right
      simp only [blocks_split, List.length_append]
      omega

theorem eq_free_of_blocks (fits : Fits rank tree) (bare : blocks rank base tree = []) :
    tree = .free := by
  induction rank generalizing base tree with
  | zero =>
    cases tree with
    | free => rfl
    | taken => simp at bare
    | split left right => exact absurd fits (by simp [Fits])
  | succ rank ih =>
    cases tree with
    | free => rfl
    | taken => simp at bare
    | split left right =>
      simp only [blocks_split, List.append_eq_nil_iff] at bare
      have leftFree := ih fits.1 bare.1
      have rightFree := ih fits.2.1 bare.2
      exact absurd ⟨leftFree, rightFree⟩ fits.2.2

/-- A run of free units that starts at a multiple of its size. -/
def OpenRun (taken : List (Nat × Nat)) (rank start : Nat) : Prop :=
  2 ^ rank ∣ start ∧
    ∀ unit, start <= unit -> unit < start + 2 ^ rank -> ∀ block ∈ taken,
      ¬ Covers block unit

variable {target : Nat}

/-- The room of a tree is real: some aligned run of free units has that size. -/
theorem exists_openRun (aligned : 2 ^ rank ∣ base) (large : target + 1 <= room rank tree) :
    ∃ start, base <= start ∧ start + 2 ^ target <= base + 2 ^ rank ∧
      OpenRun (blocks rank base tree) target start := by
  induction rank generalizing base tree with
  | zero =>
    cases tree with
    | free =>
      have small : target = 0 := by
        simp only [room_free] at large
        omega
      subst small
      exact ⟨base, le_rfl, le_rfl, aligned, by simp⟩
    | taken => simp at large
    | split left right => simp at large
  | succ rank ih =>
    have halfAligned := aligned_left aligned
    have rightAligned := aligned_right aligned
    have twice : 2 ^ (rank + 1) = 2 ^ rank + 2 ^ rank := by ring
    cases tree with
    | free =>
      have small : target <= rank + 1 := by
        simp only [room_free] at large
        omega
      have smaller := Nat.pow_le_pow_right (n := 2) (by decide) small
      exact ⟨base, le_rfl, by omega, (Nat.pow_dvd_pow 2 small).trans aligned,
        by simp⟩
    | taken => simp at large
    | split left right =>
      simp only [room_split] at large
      rcases (by omega : target + 1 <= room rank left ∨ target + 1 <= room rank right) with
        inLeft | inRight
      · rcases ih halfAligned inLeft with
          ⟨start, after, before, divides, clear⟩
        refine ⟨start, after, by omega, divides, ?_⟩
        intro unit lower upper block member covered
        simp only [blocks_split, List.mem_append] at member
        rcases member with member | member
        · exact clear unit lower upper block member covered
        · have inside := blocks_within rightAligned member
          have reached := covered.1
          omega
      rcases ih rightAligned inRight with
        ⟨start, after, before, divides, clear⟩
      refine ⟨start, by omega, by omega, divides, ?_⟩
      intro unit lower upper block member covered
      simp only [blocks_split, List.mem_append] at member
      rcases member with member | member
      · have inside := blocks_within halfAligned member
        have reached := covered.2
        omega
      · exact clear unit lower upper block member covered

theorem run_in_half {start : Nat} (aligned : 2 ^ (rank + 1) ∣ base) (small : target <= rank)
    (divides : 2 ^ target ∣ start) :
    start + 2 ^ target <= base + 2 ^ rank ∨ base + 2 ^ rank <= start := by
  have halfDivides : 2 ^ target ∣ base + 2 ^ rank :=
    Nat.dvd_add ((Nat.pow_dvd_pow 2 small).trans (aligned_left aligned)) (Nat.pow_dvd_pow 2 small)
  rcases divides with ⟨first, startIs⟩
  rcases halfDivides with ⟨second, middleIs⟩
  by_cases before : first < second
  · left
    have bound : 2 ^ target * (first + 1) <= 2 ^ target * second :=
      Nat.mul_le_mul_left _ before
    rw [Nat.mul_add] at bound
    omega
  · right
    have bound : 2 ^ target * second <= 2 ^ target * first :=
      Nat.mul_le_mul_left _ (by omega)
    omega

/-- Full coalescing: every aligned run of free units is below a free block. -/
theorem room_of_openRun {start : Nat} (aligned : 2 ^ rank ∣ base) (fits : Fits rank tree)
    (lower : base <= start) (upper : start + 2 ^ target <= base + 2 ^ rank)
    (opened : OpenRun (blocks rank base tree) target start) :
    target + 1 <= room rank tree := by
  induction rank generalizing base tree with
  | zero =>
    have small : target = 0 := by
      by_contra positive
      have large : 2 ^ 1 <= 2 ^ target := Nat.pow_le_pow_right (by decide) (by omega)
      omega
    subst small
    cases tree with
    | free => simp
    | taken =>
      exact absurd ⟨by simpa using lower, by simp only [Nat.pow_zero] at upper ⊢; omega⟩
        (opened.2 start le_rfl (by simp) (base, 0) (by simp))
    | split left right => exact absurd fits (by simp [Fits])
  | succ rank ih =>
    have halfAligned := aligned_left aligned
    have rightAligned := aligned_right aligned
    have twice : 2 ^ (rank + 1) = 2 ^ rank + 2 ^ rank := by ring
    have positive : 0 < 2 ^ target := Nat.two_pow_pos target
    have small : target <= rank + 1 := by
      by_contra larger
      have bound : 2 ^ (rank + 2) <= 2 ^ target := Nat.pow_le_pow_right (by decide) (by omega)
      have double : 2 ^ (rank + 2) = 2 * 2 ^ (rank + 1) := by ring
      omega
    cases tree with
    | free =>
      simp only [room_free]
      omega
    | taken =>
      exact absurd ⟨by simpa using lower, by simp only; omega⟩
        (opened.2 start le_rfl (by omega) (base, rank + 1) (by simp))
    | split left right =>
      by_cases whole : target = rank + 1
      · subst whole
        have startIs : start = base := by omega
        have bare : blocks (rank + 1) base (.split left right) = [] := by
          apply List.eq_nil_iff_forall_not_mem.mpr
          intro block member
          have inside := blocks_within aligned member
          have filled : 0 < 2 ^ block.2 := Nat.two_pow_pos _
          exact opened.2 block.1 (by omega) (by omega) block member
            ⟨le_rfl, by omega⟩
        exact absurd (eq_free_of_blocks fits bare) (by simp)
      simp only [room_split]
      rcases run_in_half aligned (by omega) opened.1 with inLeft | inRight
      · have found := ih halfAligned fits.1 lower inLeft
          ⟨opened.1, fun unit first last block member =>
            opened.2 unit first last block (by simp [member])⟩
        omega
      · have found := ih rightAligned fits.2.1 inRight (by omega)
          ⟨opened.1, fun unit first last block member =>
            opened.2 unit first last block (by simp [member])⟩
        omega

variable {levels : Nat}

/-- A tree with room for the block keeps fitting, and the carved block is the
only new one. -/
theorem carve_spec (base : Nat) (fits : Fits (target + levels) tree)
    (large : target + 1 <= room (target + levels) tree) :
    (carve target levels tree).1 ≠ .free ∧
      Fits (target + levels) (carve target levels tree).1 ∧
      (blocks (target + levels) base (carve target levels tree).1).Perm
        ((base + (carve target levels tree).2, target) :: blocks (target + levels) base tree) := by
  induction levels generalizing tree base with
  | zero =>
    have free := room_full large
    subst free
    simp [carve, Fits]
  | succ levels ih =>
    have present : tree ≠ .taken := by
      rintro rfl
      simp at large
    have halves : target + 1 <= room (target + levels) tree.leftHalf ∨
        target + 1 <= room (target + levels) tree.rightHalf :=
      room_halves (by omega) (by omega) large
    have split := blocks_halves (target + levels) base present
    simp only [carve]
    split
    case isTrue full =>
      have inRight : target + 1 <= room (target + levels) tree.rightHalf := by omega
      have inner := ih (base + 2 ^ (target + levels))
        (fits_rightHalf fits) inRight
      refine ⟨by simp, ⟨fits_leftHalf fits, inner.2.1, fun both => inner.1 both.2⟩, ?_⟩
      rw [<- Nat.add_assoc, split]
      simp only [blocks_split]
      refine (inner.2.2.append_left _).trans ?_
      rw [Nat.add_assoc]
      exact List.perm_middle
    case isFalse room =>
      have inLeft : target + 1 <= BuddyTree.room (target + levels) tree.leftHalf := by omega
      have inner := ih base (fits_leftHalf fits) inLeft
      refine ⟨by simp, ⟨inner.2.1, fits_rightHalf fits, fun both => inner.1 both.1⟩, ?_⟩
      rw [<- Nat.add_assoc, split]
      simp only [blocks_split]
      exact inner.2.2.append_right _

theorem giveBack_spec {offset : Nat} (base : Nat) {after : BuddyTree}
    (fits : Fits (target + levels) tree) (inside : offset < 2 ^ (target + levels))
    (given : giveBack target levels offset tree = some after) (aligned : 2 ^ target ∣ offset) :
    Fits (target + levels) after ∧
      (blocks (target + levels) base tree).Perm
        ((base + offset, target) :: blocks (target + levels) base after) := by
  induction levels generalizing tree after offset base with
  | zero =>
    cases tree with
    | free => simp [giveBack] at given
    | taken =>
      simp only [giveBack, Option.some.injEq] at given
      have zero : offset = 0 := Nat.eq_zero_of_dvd_of_lt aligned inside
      subst given
      simp [Fits, zero]
    | split left right => simp [giveBack] at given
  | succ levels ih =>
    cases tree with
    | free => simp [giveBack] at given
    | taken => simp [giveBack] at given
    | split left right =>
      have positive : 0 < 2 ^ (target + levels) := Nat.two_pow_pos _
      have below := Nat.mod_lt offset positive
      have divides : 2 ^ target ∣ 2 ^ (target + levels) := Nat.pow_dvd_pow 2 (by omega)
      have remainder : 2 ^ target ∣ offset % 2 ^ (target + levels) :=
        (Nat.dvd_mod_iff divides).mpr aligned
      have twice : 2 ^ (target + levels + 1) = 2 ^ (target + levels) + 2 ^ (target + levels) := by
        ring
      rw [<- Nat.add_assoc] at fits inside ⊢
      simp only [giveBack] at given
      split at given
      case isTrue high =>
        rcases Option.map_eq_some_iff.mp given with ⟨half, found, rfl⟩
        have inner := ih (base + 2 ^ (target + levels)) fits.2.1
          below found remainder
        have place : offset % 2 ^ (target + levels) = offset - 2 ^ (target + levels) := by
          rw [Nat.mod_eq_sub_mod high, Nat.mod_eq_of_lt (by omega)]
        refine ⟨fits_join fits.1 inner.1, ?_⟩
        rw [blocks_join]
        simp only [blocks_split]
        refine (inner.2.append_left _).trans ?_
        rw [show base + 2 ^ (target + levels) + offset % 2 ^ (target + levels) = base + offset
          by omega]
        exact List.perm_middle
      case isFalse low =>
        rcases Option.map_eq_some_iff.mp given with ⟨half, found, rfl⟩
        have inner := ih base fits.1 below found remainder
        have place : offset % 2 ^ (target + levels) = offset := Nat.mod_eq_of_lt (by omega)
        refine ⟨fits_join inner.1 fits.2.1, ?_⟩
        rw [blocks_join]
        simp only [blocks_split]
        rw [place] at inner
        exact inner.2.append_right _

theorem giveBack_of_mem {offset : Nat} (base : Nat) (aligned : 2 ^ (target + levels) ∣ base)
    (inside : offset < 2 ^ (target + levels))
    (member : (base + offset, target) ∈ blocks (target + levels) base tree) :
    (giveBack target levels offset tree).isSome := by
  induction levels generalizing tree offset base with
  | zero =>
    cases tree with
    | free => simp at member
    | taken => simp [giveBack]
    | split left right =>
      cases target with
      | zero => simp at member
      | succ target =>
        simp only [blocks_split, List.mem_append] at member
        have halfAligned : 2 ^ target ∣ base := aligned_left aligned
        have twice : 2 ^ (target + 1) = 2 ^ target + 2 ^ target := by ring
        have positive : 0 < 2 ^ target := Nat.two_pow_pos target
        rcases member with member | member
        · have bound := (blocks_within halfAligned member).2.1
          simp only at bound
          omega
        · have bound := blocks_within (aligned_right aligned) member
          simp only at bound
          omega
  | succ levels ih =>
    have halfAligned : 2 ^ (target + levels) ∣ base := aligned_left aligned
    have positive : 0 < 2 ^ (target + levels) := Nat.two_pow_pos _
    have filled : 0 < 2 ^ target := Nat.two_pow_pos _
    have twice : 2 ^ (target + levels + 1) = 2 ^ (target + levels) + 2 ^ (target + levels) := by
      ring
    have below := Nat.mod_lt offset positive
    rw [<- Nat.add_assoc] at inside member
    cases tree with
    | free => simp at member
    | taken =>
      simp only [blocks_taken, List.mem_singleton, Prod.mk.injEq] at member
      omega
    | split left right =>
      simp only [blocks_split, List.mem_append] at member
      simp only [giveBack]
      split
      case isTrue high =>
        have place : offset % 2 ^ (target + levels) = offset - 2 ^ (target + levels) := by
          rw [Nat.mod_eq_sub_mod high, Nat.mod_eq_of_lt (by omega)]
        rw [Option.isSome_map]
        apply ih (base + 2 ^ (target + levels))
          (aligned_right aligned) below
        rcases member with member | member
        · have bound := blocks_within halfAligned member
          simp only at bound
          omega
        · rw [show base + 2 ^ (target + levels) + offset % 2 ^ (target + levels) =
            base + offset by omega]
          exact member
      case isFalse low =>
        have place : offset % 2 ^ (target + levels) = offset := Nat.mod_eq_of_lt (by omega)
        rw [Option.isSome_map]
        apply ih base halfAligned below
        rcases member with member | member
        · rw [place]
          exact member
        · have bound : base + 2 ^ (target + levels) <= base + offset :=
            (blocks_within (aligned_right aligned) member).1
          omega

end BuddyTree

end Foundation
end Carrick
