import Carrick.MmapArena.Placement

namespace Carrick
namespace MmapArena

open Foundation

/-!
# Gaps above the high threshold

`findCanonicalHighVaGap` clips, sorts and merges everything that occupies the
high addresses, and then walks the merged ranges upward, rounding each
candidate up to the requested residue class.  No jump, rounding or overflow
check loses an address: the search answers exactly when a gap exists, apart
from the empty request, which it refuses.
-/

/-- The addresses of a congruence. -/
def MmapGrantCongruence.Congruent : MmapGrantCongruence -> Nat -> Prop
  | .any, _ => True
  | .residue cls, address => address % cls.modulus = cls.residue

/-- `[address, stop)` meets no part of `row`, by the test of
`guestVmaOverlapsLocked`: it ends before the row starts, or starts after the
row ends. -/
def Apart (address stop : Nat) (row : Nat × Nat) : Prop :=
  stop <= row.1 ∨ row.2 <= address

/-- What makes `address` a place for `length` bytes above the threshold: in the
class asked for, below the ceiling and apart from everything that is mapped. -/
structure HighGap (mem : MemState) (length : Nat) (congruence : MmapGrantCongruence)
    (userCeiling address : Nat) : Prop where
  congruent : congruence.Congruent address
  above : linuxHighVaThreshold <= address
  below : address + length <= userCeiling
  inWord : address + length < wordLimit
  maps : ∀ map ∈ mem.rows.dynamicMaps, Apart address (address + length) map
  growdowns : ∀ range ∈ mem.rows.growdownRanges,
    Apart address (address + length) range.2
  regions : ∀ map ∈ mem.rows.addressSpaceRegions.getD [],
    bootRegionIsHiddenReservation map mem.layout = false -> Apart address (address + length) map
  window : Apart address (address + length)
    (linuxRosettaVaBase, saturatingAdd linuxRosettaVaBase linuxRosettaWindowSize)

/-! ## Rounding up to a congruence -/

theorem ResidueClass.step_spec (cls : ResidueClass) (start : Nat) :
    let step := wrappingSub cls.residue (start &&& (cls.modulus - 1)) &&& (cls.modulus - 1)
    step < cls.modulus ∧ (start + step) % cls.modulus = cls.residue := by
  rcases cls.power with ⟨exponent, inWord, power⟩
  have positive : 0 < 2 ^ exponent := Nat.two_pow_pos exponent
  have wordMultiple : 2 ^ exponent ∣ wordLimit :=
    Nat.pow_dvd_pow 2 (Nat.le_of_lt inWord : exponent <= 64)
  have small : start % 2 ^ exponent < 2 ^ exponent := Nat.mod_lt _ positive
  have inside := Nat.le_of_dvd wordLimit_pos wordMultiple
  have below := cls.below
  simp only [power, Nat.and_two_pow_sub_one_eq_mod, wrappingSub] at below ⊢
  refine ⟨Nat.mod_lt _ positive, ?_⟩
  rw [Nat.mod_mod_of_dvd _ wordMultiple, Nat.add_mod_mod]
  have shifted : start + (cls.residue + wordLimit - start % 2 ^ exponent) =
      cls.residue + (wordLimit + 2 ^ exponent * (start / 2 ^ exponent)) := by
    have parts := Nat.mod_add_div start (2 ^ exponent)
    omega
  rw [shifted, Nat.add_mod, Nat.mod_eq_zero_of_dvd (Nat.dvd_add wordMultiple (Nat.dvd_mul_right _ _)),
    Nat.add_zero, Nat.mod_mod, Nat.mod_eq_of_lt below]

/-- `firstAtOrAfter` answers the least congruent address from `start` on, and
fails only when the word has none. -/
theorem MmapGrantCongruence.firstAtOrAfter_least {congruence : MmapGrantCongruence}
    {start address : Nat} (later : start <= address) (congruent : congruence.Congruent address)
    (inWord : address < wordLimit) :
    ∃ first, congruence.firstAtOrAfter start = some first ∧ first <= address := by
  cases congruence with
  | any => exact ⟨start, rfl, later⟩
  | residue cls =>
    rcases cls.step_spec start with ⟨small, rounded⟩
    have least : start + (wrappingSub cls.residue (start &&& (cls.modulus - 1)) &&&
        (cls.modulus - 1)) <= address := by
      by_contra beyond
      have multiple := Nat.sub_mod_eq_zero_of_mod_eq (rounded.trans congruent.symm)
      rw [Nat.mod_eq_of_lt (by omega)] at multiple
      omega
    exact ⟨_, checkedAdd_eq_some_iff.mpr ⟨rfl, by omega⟩, least⟩

theorem MmapGrantCongruence.firstAtOrAfter_congruent {congruence : MmapGrantCongruence}
    {start first : Nat} (computed : congruence.firstAtOrAfter start = some first) :
    congruence.Congruent first := by
  cases congruence with
  | any => trivial
  | residue cls =>
    rw [Congruent, <- (checkedAdd_eq_some_iff.mp computed).1]
    exact (cls.step_spec start).2

/-! ## The walk over the merged ranges -/

section Scan

variable {congruence : MmapGrantCongruence} {length top candidate : Nat}
  {occupied : List (Nat × Nat)}

theorem scanHighGaps_apart {address : Nat} {reused : Bool}
    (sorted : occupied.Pairwise (fun left right => left.1 <= right.1))
    (found : scanHighGaps congruence length top candidate occupied = some (address, reused)) :
    congruence.Congruent address ∧ address + length <= top ∧ address + length < wordLimit ∧
      ∀ row ∈ occupied, Apart address (address + length) row := by
  induction occupied generalizing candidate with
  | nil =>
    rcases Option.bind_eq_some_iff.mp found with ⟨start, rounded, found⟩
    have congruent := MmapGrantCongruence.firstAtOrAfter_congruent rounded
    simp only [checkedAdd] at found
    grind
  | cons range rest ih =>
    rcases Option.bind_eq_some_iff.mp found with ⟨start, rounded, tried⟩
    have congruent := MmapGrantCongruence.firstAtOrAfter_congruent rounded
    rcases List.pairwise_cons.mp sorted with ⟨first, sorted⟩
    -- A later find starts past the end of this range.
    have later (scanned : scanHighGaps congruence length top (max candidate range.2) rest =
        some (address, reused)) := And.intro (ih sorted scanned) (scanHighGaps_spec scanned).1
    simp only [checkedAdd] at tried
    grind [Apart]

theorem scanHighGaps_complete {address : Nat} (reached : candidate <= address)
    (congruent : congruence.Congruent address) (below : address + length <= top)
    (inWord : address + length < wordLimit)
    (apart : ∀ row ∈ occupied, Apart address (address + length) row) :
    (scanHighGaps congruence length top candidate occupied).isSome = true := by
  induction occupied generalizing candidate with
  | nil =>
    rcases MmapGrantCongruence.firstAtOrAfter_least reached congruent (by omega) with
      ⟨first, rounded, least⟩
    simp only [scanHighGaps, rounded, Option.bind_some, checkedAdd]
    grind
  | cons range rest ih =>
    rcases MmapGrantCongruence.firstAtOrAfter_least reached congruent (by omega) with
      ⟨first, rounded, least⟩
    simp only [List.forall_mem_cons] at apart
    -- A range that ends at or before the address leaves it ahead of the next candidate.
    have onward (ended : range.2 <= address) := @ih (max candidate range.2)
      (by omega) apart.2
    simp only [scanHighGaps, rounded, Option.bind_some, checkedAdd]
    grind [Apart]

end Scan

/-! ## The occupied ranges -/

theorem mergeSorted_spec {address stop : Nat} (nonempty : address < stop) (last : Nat × Nat)
    {ranges : List (Nat × Nat)}
    (sorted : (last :: ranges).Pairwise (fun left right => left.1 <= right.1)) :
    (mergeSorted last ranges).Pairwise (fun left right => left.1 <= right.1) ∧
      (∀ row ∈ mergeSorted last ranges, last.1 <= row.1) ∧
      ((∀ row ∈ mergeSorted last ranges, Apart address stop row) <->
        ∀ row ∈ last :: ranges, Apart address stop row) := by
  induction ranges generalizing last with
  | nil => simp [mergeSorted]
  | cons range rest ih =>
    simp only [List.pairwise_cons, List.forall_mem_cons] at sorted ih ⊢
    simp only [mergeSorted]
    split
    case isTrue touches =>
      have merged := ih (last.1, max last.2 range.2) ⟨sorted.1.2, sorted.2.2⟩
      refine ⟨merged.1, merged.2.1, merged.2.2.trans ?_⟩
      simp only [Apart]
      grind
    case isFalse apart =>
      have merged := ih range sorted.2
      simp only [List.pairwise_cons, List.forall_mem_cons, merged.2.2]
      grind

theorem mergeOccupied_spec {address stop : Nat} (nonempty : address < stop)
    (occupied : List (Nat × Nat)) :
    (mergeOccupied occupied).Pairwise (fun left right => left.1 <= right.1) ∧
      ((∀ row ∈ mergeOccupied occupied, Apart address stop row) <->
        ∀ row ∈ occupied, Apart address stop row) := by
  have same := List.perm_insertionSort (fun left right : Nat × Nat => left.1 <= right.1) occupied
  have : Std.Total (fun left right : Nat × Nat => left.1 <= right.1) :=
    ⟨fun left right => Nat.le_total left.1 right.1⟩
  have : IsTrans (Nat × Nat) (fun left right => left.1 <= right.1) := ⟨fun _ _ _ => Nat.le_trans⟩
  have sorted := List.pairwise_insertionSort (fun left right : Nat × Nat => left.1 <= right.1)
    occupied
  simp only [<- same.mem_iff]
  unfold mergeOccupied
  cases shape : occupied.insertionSort (fun left right => left.1 <= right.1) with
  | nil => simp
  | cons first rest =>
    rw [shape] at sorted
    have merged := mergeSorted_spec nonempty first sorted
    exact ⟨merged.1, merged.2.2⟩

/-- Clipping at the threshold keeps what a range above the threshold meets. -/
theorem occupiedHigh_apart (mem : MemState) {address stop : Nat}
    (above : linuxHighVaThreshold <= address) (nonempty : address < stop) :
    (∀ row ∈ occupiedHigh mem, Apart address stop row) <->
      (∀ map ∈ mem.rows.dynamicMaps, Apart address stop map) ∧
      (∀ range ∈ mem.rows.growdownRanges, Apart address stop range.2) ∧
      (∀ map ∈ mem.rows.addressSpaceRegions.getD [],
        bootRegionIsHiddenReservation map mem.layout = false -> Apart address stop map) ∧
      Apart address stop
        (linuxRosettaVaBase, saturatingAdd linuxRosettaVaBase linuxRosettaWindowSize) := by
  have clipped (map : Nat × Nat) : (∀ row, (if linuxHighVaThreshold < map.2 then
      some (max map.1 linuxHighVaThreshold, map.2) else none) = some row ->
        Apart address stop row) <-> Apart address stop map := by
    grind [Apart]
  simp only [occupiedHigh, List.mem_append, List.mem_filterMap, List.mem_filter, or_imp,
    forall_and, List.mem_singleton, forall_eq, Bool.not_eq_true', forall_exists_index, and_imp]
  simp only [@forall_comm (Nat × Nat), and_assoc]
  grind

/-! ## Placement above the threshold -/

/-- The search answers only with a gap, and refuses a nonempty request only
when there is none. -/
theorem findCanonicalHighVaGap_exact (mem : MemState) (length : Nat)
    (congruence : MmapGrantCongruence) (userCeiling : Nat) :
    (∀ address reused,
      findCanonicalHighVaGap mem length congruence userCeiling = some (address, reused) ->
        HighGap mem length congruence userCeiling address) ∧
      (findCanonicalHighVaGap mem length congruence userCeiling = none -> length = 0 ∨
        ∀ address, ¬ HighGap mem length congruence userCeiling address) := by
  constructor
  · intro address reused found
    unfold findCanonicalHighVaGap at found
    split at found
    · cases found
    next accepted =>
      have nonempty : address < address + length := by omega
      have merged := mergeOccupied_spec nonempty (occupiedHigh mem)
      have above := (scanHighGaps_spec found).1
      rcases scanHighGaps_apart merged.1 found with ⟨congruent, below, inWord, apart⟩
      rcases (occupiedHigh_apart mem above nonempty).mp (merged.2.mp apart) with
        ⟨maps, growdowns, regions, window⟩
      exact ⟨congruent, above, below, inWord, maps, growdowns, regions, window⟩
  intro refused
  by_cases empty : length = 0
  · exact .inl empty
  right
  intro address gap
  have nonempty : address < address + length := by omega
  have apart := (mergeOccupied_spec nonempty (occupiedHigh mem)).2.mpr
    ((occupiedHigh_apart mem gap.above nonempty).mpr
      ⟨gap.maps, gap.growdowns, gap.regions, gap.window⟩)
  have found := scanHighGaps_complete gap.above gap.congruent gap.below gap.inWord apart
  have below := gap.below
  rw [findCanonicalHighVaGap, if_neg (by omega)] at refused
  rw [refused] at found
  cases found

/-- An empty range fits at the threshold of an empty address space, and the
search refuses it. -/
theorem findCanonicalHighVaGap_refuses_empty :
    findCanonicalHighVaGap (MemState.newWithLayout MemoryLayout.hvfDefault) 0 .any
        linuxRosettaVaBase = none ∧
      HighGap (MemState.newWithLayout MemoryLayout.hvfDefault) 0 .any linuxRosettaVaBase
        linuxHighVaThreshold := by
  refine ⟨by decide, ⟨trivial, le_rfl, by decide, by decide, ?_, ?_, ?_,
    .inl (by decide)⟩⟩
  · intro map member
    cases member
  · intro range member
    cases member
  · intro map member
    cases member

end MmapArena
end Carrick
