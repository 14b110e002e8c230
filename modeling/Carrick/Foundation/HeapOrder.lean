import Mathlib.Order.Lattice

namespace Carrick
namespace Foundation

/-!
# Heap order by position

The places of a binary heap are numbered from 1, so that the parent of a place
is half of it.  A key that is out of order at one place can be moved towards
the root or away from it by exchanging it with a neighbour.
-/

variable {K : Type}

/-- The keys with two of them exchanged. -/
def exchanged (key : Nat -> K) (first second : Nat) : Nat -> K := fun place =>
  if place = first then key second else if place = second then key first else key place

section Exchanged

variable {key : Nat -> K}

theorem exchanged_first (first second : Nat) : exchanged key first second first = key second :=
  if_pos rfl

theorem exchanged_second (first second : Nat) : exchanged key first second second = key first := by
  unfold exchanged
  split
  · rename_i same
    rw [same]
  · rw [if_pos rfl]

theorem exchanged_other {first second place : Nat} (notFirst : place ≠ first)
    (notSecond : place ≠ second) : exchanged key first second place = key place := by
  unfold exchanged
  rw [if_neg notFirst, if_neg notSecond]

end Exchanged

variable [LinearOrder K]

/-- No key comes before the key of its parent. -/
def HeapOrdered (count : Nat) (key : Nat -> K) : Prop :=
  ∀ place, 2 <= place -> place <= count -> key (place / 2) <= key place

section Order

variable {count : Nat} {key : Nat -> K}

theorem HeapOrdered.root_le (ordered : HeapOrdered count key) (place : Nat) (named : 1 <= place)
    (inside : place <= count) : key 1 <= key place := by
  induction place using Nat.strong_induction_on with
  | _ place ih =>
    by_cases isRoot : place = 1
    · rw [isRoot]
    · exact (ih (place / 2) (by omega) (by omega) (by omega)).trans
        (ordered place (by omega) inside)

theorem HeapOrdered.child_le (ordered : HeapOrdered count key) (place : Nat) (below : 2 <= place)
    (inside : place <= count) :
    ∃ child, (child = 2 ∨ child = 3) ∧ child <= count ∧ key child <= key place := by
  induction place using Nat.strong_induction_on with
  | _ place ih =>
    by_cases isChild : place <= 3
    · exact ⟨place, by omega, inside, le_refl _⟩
    · rcases ih (place / 2) (by omega) (by omega) (by omega) with
        ⟨child, either, within, least⟩
      exact ⟨child, either, within, least.trans (ordered place below inside)⟩

/-- Only the key at one place may come before that of its parent: the heap while
a key moves up. -/
structure RisesAt (count : Nat) (key : Nat -> K) (hole : Nat) : Prop where
  off : ∀ place, 2 <= place -> place <= count -> place ≠ hole -> key (place / 2) <= key place
  below : ∀ place, place <= count -> place / 2 = hole -> 2 <= hole -> key (hole / 2) <= key place

/-- Only the key at one place may come behind those of its children: the heap
while a key moves down. -/
structure SinksAt (count : Nat) (key : Nat -> K) (hole : Nat) : Prop where
  off : ∀ place, 2 <= place -> place <= count -> place / 2 ≠ hole -> key (place / 2) <= key place
  below : ∀ place, place <= count -> place / 2 = hole -> 2 <= hole -> key (hole / 2) <= key place

theorem RisesAt.done {hole : Nat} (rises : RisesAt count key hole)
    (stops : 2 <= hole -> key (hole / 2) <= key hole) : HeapOrdered count key := by
  intro place below inside
  by_cases here : place = hole
  · subst here
    exact stops below
  · exact rises.off place below inside here

theorem RisesAt.exchange {hole : Nat} (rises : RisesAt count key hole) (below : 2 <= hole)
    (inside : hole <= count) (less : key hole < key (hole / 2)) :
    RisesAt count (exchanged key hole (hole / 2)) (hole / 2) := by
  -- the key that comes down was above all that its new place is a parent of
  refine ⟨fun place named within elsewhere => ?_, fun place within child deep => ?_⟩
  · by_cases here : place = hole
    · subst here
      rw [exchanged_first, exchanged_second]
      exact le_of_lt less
    rw [exchanged_other here elsewhere]
    by_cases underHole : place / 2 = hole
    · rw [underHole, exchanged_first]
      exact rises.below place within underHole below
    have kept := rises.off place named within here
    by_cases sibling : place / 2 = hole / 2
    · rw [sibling, exchanged_second]
      rw [sibling] at kept
      exact (le_of_lt less).trans kept
    · rw [exchanged_other underHole sibling]
      exact kept
  · have above := rises.off (hole / 2) deep (by omega) (by omega)
    rw [exchanged_other (by omega) (by omega)]
    by_cases here : place = hole
    · subst here
      rw [exchanged_first]
      exact above
    · rw [exchanged_other here (by omega)]
      have kept := rises.off place (by omega) within here
      rw [child] at kept
      exact above.trans kept

theorem SinksAt.done {hole : Nat} (sinks : SinksAt count key hole)
    (stops : ∀ place, 2 <= place -> place <= count -> place / 2 = hole -> key hole <= key place) :
    HeapOrdered count key := by
  intro place below inside
  by_cases here : place / 2 = hole
  · rw [here]
    exact stops place below inside here
  · exact sinks.off place below inside here

theorem SinksAt.exchange {hole child : Nat} (sinks : SinksAt count key hole) (named : 1 <= hole)
    (isChild : child / 2 = hole) (inside : child <= count)
    (least : ∀ place, place <= count -> place / 2 = hole -> key child <= key place)
    (less : key child < key hole) : SinksAt count (exchanged key hole child) child := by
  refine ⟨fun place below within elsewhere => ?_, fun place within under _ => ?_⟩
  · by_cases here : place = hole
    · subst here
      rw [exchanged_first, exchanged_other (by omega) (by omega)]
      exact sinks.below child inside isChild below
    by_cases isTheChild : place = child
    · subst isTheChild
      rw [exchanged_second, isChild, exchanged_first]
      exact le_of_lt less
    rw [exchanged_other here isTheChild]
    by_cases sibling : place / 2 = hole
    · rw [sibling, exchanged_first]
      exact least place within sibling
    · rw [exchanged_other sibling elsewhere]
      exact sinks.off place below within sibling
  · rw [isChild, exchanged_first, exchanged_other (by omega) (by omega)]
    have kept := sinks.off place (by omega) within (by omega)
    rw [under] at kept
    exact kept

theorem HeapOrdered.appended {other : Nat -> K} (ordered : HeapOrdered count key)
    (same : ∀ place, place <= count -> other place = key place) :
    RisesAt (count + 1) other (count + 1) := by
  refine ⟨fun place below inside elsewhere => ?_, fun place inside under named => ?_⟩
  · rw [same place (by omega), same (place / 2) (by omega)]
    exact ordered place below (by omega)
  · omega

theorem HeapOrdered.replaced_rises {other : Nat -> K} {hole fewer : Nat}
    (ordered : HeapOrdered count key) (fewer_le : fewer <= count) (inside : hole <= fewer)
    (same : ∀ place, place <= fewer -> place ≠ hole -> other place = key place) (below : 2 <= hole)
    (less : other hole < other (hole / 2)) : RisesAt fewer other hole := by
  have parent := same (hole / 2) (by omega) (by omega)
  have before := ordered hole below (by omega)
  refine ⟨fun place named within elsewhere => ?_, fun place within under _ => ?_⟩
  · have kept := ordered place named (by omega)
    rw [same place within elsewhere]
    by_cases under : place / 2 = hole
    · rw [under] at kept ⊢
      exact ((le_of_lt less).trans (parent.trans_le before)).trans kept
    · rw [same (place / 2) (by omega) under]
      exact kept
  · have kept := ordered place (by omega) (by omega)
    rw [under] at kept
    rw [same place within (by omega), parent]
    exact before.trans kept

theorem HeapOrdered.replaced_sinks {other : Nat -> K} {hole fewer : Nat}
    (ordered : HeapOrdered count key) (fewer_le : fewer <= count) (inside : hole <= fewer)
    (same : ∀ place, place <= fewer -> place ≠ hole -> other place = key place)
    (stays : 2 <= hole -> other (hole / 2) <= other hole) : SinksAt fewer other hole := by
  refine ⟨fun place named within elsewhere => ?_, fun place within under deep => ?_⟩
  · by_cases here : place = hole
    · subst here
      exact stays named
    · rw [same place within here, same (place / 2) (by omega) elsewhere]
      exact ordered place named (by omega)
  have kept := ordered place (by omega) (by omega)
  have before := ordered hole deep (by omega)
  rw [under] at kept
  rw [same place within (by omega), same (hole / 2) (by omega) (by omega)]
  exact before.trans kept

end Order

end Foundation
end Carrick
