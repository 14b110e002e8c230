import Carrick.TimerIndex.Seats

namespace Carrick
namespace TimerIndex

open Foundation

/-!
# Sifting

A key that is out of order rises or sinks until its heap is ordered again.  The
rounds that bound the loops are enough for every heap of the table.
-/

/-- What a sift leaves: the heap of the slot is ordered, and nothing else is
different. -/
structure Sifted (seat : Nat -> Nat -> Nat) (slot : Nat) (index after : Index) : Prop where
  trees : after.trees = index.trees
  placed : Placed after seat
  held : after.held = index.held
  ordered : HeapOrdered (after.trees slot).len (after.rankAt seat slot)
  others : ∀ other place, other ≠ slot -> index.InHeap other place ->
    after.rankAt seat other place = index.rankAt seat other place

section Sift

variable {index : Index} {seat : Nat -> Nat -> Nat} {slot : Nat}

theorem Index.InHeap.congr {after : Index} (trees : after.trees = index.trees) {place : Nat} :
    after.InHeap slot place <-> index.InHeap slot place := by
  unfold Index.InHeap
  rw [trees]

theorem Sifted.refl (placed : Placed index seat)
    (ordered : HeapOrdered (index.trees slot).len (index.rankAt seat slot)) :
    Sifted seat slot index index :=
  ⟨rfl, placed, rfl, ordered, fun _ _ _ _ => rfl⟩

theorem Exchanged.sifted {first second : Nat} {middle after : Index} (placed : Placed index seat)
    (firstInHeap : index.InHeap slot first) (secondInHeap : index.InHeap slot second)
    (exchanged : Exchanged (seat slot first) (seat slot second) index middle)
    (sifted : Sifted seat slot middle after) : Sifted seat slot index after := by
  refine ⟨sifted.trees.trans exchanged.trees, sifted.placed, ?_, sifted.ordered, ?_⟩
  · exact sifted.held.trans (exchanged.held_eq placed firstInHeap secondInHeap)
  · intro other place elsewhere inside
    rw [sifted.others other place elsewhere ((Index.InHeap.congr exchanged.trees).mpr inside)]
    exact exchanged.rankAt_other placed firstInHeap secondInHeap elsewhere inside

theorem Index.less_iff {first second : Nat} :
    index.less slot (seat slot first) (seat slot second) = true <->
      index.rankAt seat slot first < index.rankAt seat slot second :=
  Ticket.before_iff

theorem Index.not_less_iff {first second : Nat} :
    index.less slot (seat slot first) (seat slot second) = false <->
      index.rankAt seat slot second <= index.rankAt seat slot first := by
  rw [Bool.eq_false_iff, ne_eq, Index.less_iff, not_lt]

theorem up_sifted {rounds place : Nat} (placed : Placed index seat) (inHeap : index.InHeap slot place)
    (rises : RisesAt (index.trees slot).len (index.rankAt seat slot) place) (enough : place <= rounds) :
    Sifted seat slot index (Index.up slot rounds (seat slot place) index) := by
  induction rounds generalizing place index with
  | zero =>
    have named := inHeap.1
    omega
  | succ rounds ih =>
    unfold Index.up
    dsimp only
    rw [placed.seated.parent slot place inHeap]
    split
    · rename_i stops
      refine Sifted.refl placed (rises.done (fun below => ?_))
      have parentInHeap : index.InHeap slot (place / 2) := ⟨by omega, by have := inHeap.2; omega⟩
      rw [Bool.or_eq_true, decide_eq_true_iff, Bool.not_eq_true', Index.not_less_iff] at stops
      rcases stops with zero | ordered
      · exact absurd zero (placed.seat_node parentInHeap).1
      · exact ordered
    rename_i goes
    rw [Bool.or_eq_true, not_or, decide_eq_true_iff, Bool.not_eq_true', Bool.not_eq_false,
      Index.less_iff] at goes
    have parentInHeap : index.InHeap slot (place / 2) := by
      by_contra outside
      exact goes.1 (placed.seated.vacant slot _ outside)
    have below : 2 <= place := by
      have named := parentInHeap.1
      omega
    have exchanged := placed.swap_exchanged inHeap parentInHeap (by omega)
    have placedNext : Placed _ seat := ⟨exchanged.leased placed inHeap parentInHeap,
      exchanged.seated placed inHeap parentInHeap⟩
    refine exchanged.sifted placed inHeap parentInHeap (ih placedNext ?_ ?_ ?_)
    · exact (Index.InHeap.congr exchanged.trees).mpr parentInHeap
    · rw [exchanged.rankAt_eq placed inHeap parentInHeap, exchanged.trees]
      exact rises.exchange below inHeap.2 goes.2
    · omega

theorem lesserChild_spec {place : Nat} (placed : Placed index seat) (inHeap : index.InHeap slot place)
    (hasLeft : index.InHeap slot (2 * place)) :
    ∃ child, child / 2 = place ∧ index.InHeap slot child ∧
      index.lesserChild slot (seat slot place) = seat slot child ∧
      ∀ other, other <= (index.trees slot).len -> other / 2 = place ->
        index.rankAt seat slot child <= index.rankAt seat slot other := by
  unfold Index.lesserChild
  dsimp only
  rw [placed.seated.left slot place inHeap, placed.seated.right slot place inHeap]
  have named := inHeap.1
  have either : ∀ other, other / 2 = place -> other = 2 * place ∨ other = 2 * place + 1 := by
    intro other half
    omega
  split
  · rename_i rightFirst
    rw [Bool.and_eq_true, decide_eq_true_iff, Index.less_iff] at rightFirst
    have hasRight : index.InHeap slot (2 * place + 1) := by
      by_contra outside
      exact rightFirst.1 (placed.seated.vacant slot _ outside)
    refine ⟨2 * place + 1, by omega, hasRight, rfl, fun other inside half => ?_⟩
    rcases either other half with rfl | rfl
    · exact le_of_lt rightFirst.2
    · exact le_refl _
  · rename_i leftFirst
    rw [Bool.and_eq_true, not_and, decide_eq_true_iff, Bool.not_eq_true, Index.not_less_iff] at leftFirst
    refine ⟨2 * place, by omega, hasLeft, rfl, fun other inside half => ?_⟩
    rcases either other half with rfl | rfl
    · exact le_refl _
    · exact leftFirst (placed.seat_node ⟨by omega, inside⟩).1

theorem down_sifted {rounds place : Nat} (placed : Placed index seat) (inHeap : index.InHeap slot place)
    (sinks : SinksAt (index.trees slot).len (index.rankAt seat slot) place)
    (enough : (index.trees slot).len < place + rounds) :
    Sifted seat slot index (Index.down slot rounds (seat slot place) index) := by
  induction rounds generalizing place index with
  | zero =>
    have inside := inHeap.2
    omega
  | succ rounds ih =>
    have named := inHeap.1
    unfold Index.down
    dsimp only
    rw [placed.seated.left slot place inHeap]
    split
    · rename_i noLeft
      refine Sifted.refl placed (sinks.done (fun other _ inside half => ?_))
      have outside := placed.seat_eq_zero_iff.mp noLeft
      exact absurd (⟨by omega, by omega⟩ : index.InHeap slot (2 * place)) outside
    rename_i hasLeft
    have leftInHeap : index.InHeap slot (2 * place) := by
      by_contra outside
      exact hasLeft (placed.seated.vacant slot _ outside)
    rcases lesserChild_spec placed inHeap leftInHeap with
      ⟨child, isChild, childInHeap, chosen, least⟩
    rw [chosen]
    split
    · rename_i stops
      rw [Bool.not_eq_true', Index.not_less_iff] at stops
      refine Sifted.refl placed (sinks.done (fun other _ inside half => ?_))
      exact stops.trans (least other inside half)
    rename_i goes
    rw [Bool.not_eq_true', Bool.not_eq_false, Index.less_iff] at goes
    have apart : place ≠ child := by omega
    have exchanged := placed.swap_exchanged inHeap childInHeap apart
    have placedNext : Placed _ seat := ⟨exchanged.leased placed inHeap childInHeap,
      exchanged.seated placed inHeap childInHeap⟩
    refine exchanged.sifted placed inHeap childInHeap (ih placedNext ?_ ?_ ?_)
    · exact (Index.InHeap.congr exchanged.trees).mpr childInHeap
    · rw [exchanged.rankAt_eq placed inHeap childInHeap, exchanged.trees]
      exact sinks.exchange named isChild childInHeap.2 least goes
    · rw [exchanged.trees]
      omega

theorem settle_sifted {place : Nat} {key : Nat -> Nat ×ₗ Nat ×ₗ Nat ×ₗ Nat} {count : Nat}
    (placed : Placed index seat) (inHeap : index.InHeap slot place)
    (ordered : HeapOrdered count key) (fewer : (index.trees slot).len <= count)
    (same : ∀ other, other <= (index.trees slot).len -> other ≠ place ->
      index.rankAt seat slot other = key other) :
    Sifted seat slot index (index.settle slot (seat slot place)) := by
  have short := placed.len_lt slot
  have inside := inHeap.2
  unfold Index.settle
  dsimp only
  rw [placed.seated.parent slot place inHeap]
  split
  · rename_i rising
    rw [Bool.and_eq_true, decide_eq_true_iff, Index.less_iff] at rising
    have parentInHeap : index.InHeap slot (place / 2) := by
      by_contra outside
      exact rising.1 (placed.seated.vacant slot _ outside)
    have named := parentInHeap.1
    exact up_sifted placed inHeap
      (ordered.replaced_rises fewer inside same (by omega) rising.2) (by omega)
  · rename_i sinking
    rw [Bool.and_eq_true, not_and, decide_eq_true_iff, Bool.not_eq_true, Index.not_less_iff] at sinking
    refine down_sifted placed inHeap (ordered.replaced_sinks fewer inside same (fun below => ?_)) (by omega)
    exact sinking (placed.seat_node ⟨by omega, by omega⟩).1

end Sift

end TimerIndex
end Carrick
