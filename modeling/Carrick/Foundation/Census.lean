import Mathlib.Data.Finset.Card

namespace Carrick
namespace Foundation

/-!
# Counting the places of a map

A partial map from places to values, and how many places of a finite set hold
a value of some kind.  An edit changes the census by what it does to the places
it touches.
-/

section

variable {α : Type} (counts : α -> Bool)

/-- The places of a set where a map holds a value that counts. -/
def census (map : Nat -> Option α) (places : Finset Nat) : Nat :=
  (places.filter (fun place => (map place).any counts = true)).card

variable {counts} {map before after : Nat -> Option α} {places part : Finset Nat}

theorem census_congr
    (same : ∀ place ∈ places,
      (before place).any counts = (after place).any counts) :
    census counts before places = census counts after places := by
  unfold census
  refine congrArg Finset.card (Finset.filter_congr ?_)
  intro place member
  rw [same place member]

theorem census_union (disjoint : Disjoint places part) :
    census counts map (places ∪ part) = census counts map places + census counts map part := by
  unfold census
  rw [Finset.filter_union, Finset.card_union_of_disjoint]
  exact Finset.disjoint_filter_filter disjoint

theorem census_all (all : ∀ place ∈ places, (map place).any counts = true) :
    census counts map places = places.card := by
  unfold census
  rw [Finset.filter_true_of_mem all]

theorem census_none (none : ∀ place ∈ places, (map place).any counts = false) :
    census counts map places = 0 := by
  unfold census
  rw [Finset.card_eq_zero]
  refine Finset.filter_false_of_mem (fun place member => ?_)
  rw [none place member]
  exact Bool.false_ne_true

/-- An edit of a part of the places changes the census by what it does there. -/
theorem census_exchange (within : part ⊆ places)
    (outside : ∀ place ∈ places, place ∉ part -> after place = before place) :
    census counts after places + census counts before part =
      census counts before places + census counts after part := by
  have whole : ∀ map : Nat -> Option α, census counts map places =
      census counts map (places \ part) + census counts map part := by
    intro map
    rw [<- census_union Finset.sdiff_disjoint, Finset.sdiff_union_of_subset within]
  have rest : census counts after (places \ part) = census counts before (places \ part) := by
    refine census_congr (fun place member => ?_)
    rcases Finset.mem_sdiff.mp member with ⟨inside, missed⟩
    rw [outside place inside missed]
  have afterwards := whole after
  have beforehand := whole before
  omega

end

end Foundation
end Carrick
