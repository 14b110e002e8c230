import Carrick.Foundation.Word
import Mathlib.Data.List.Sort

namespace Carrick
namespace Aperture

open Foundation

/-!
# Interval lists of the shared aperture

The aperture keeps freed ranges, and ranges whose translation has to be
restored, as vectors of `(start, len)` pairs.  Two functions edit them: a
coalescing insert and a removal.  Each gets one specification: it keeps the
list coalesced, and the addresses it covers change by exactly the edited range.
-/

abbrev Interval := Nat × Nat

/-- The loop of `freeInsert` over the entries in order: entries away from the
new range are kept, entries that overlap or touch it are merged into it, and the
merged range goes in before the first entry above it. -/
def insertFrom (start stop : Nat) (inserted : Bool) : List Interval -> List Interval
  | [] => if inserted then [] else [(start, stop - start)]
  | (first, len) :: rest =>
    if saturatingAdd first len < start || stop < first then
      if !inserted && stop < first then
        (start, stop - start) :: (first, len) :: insertFrom start stop true rest
      else (first, len) :: insertFrom start stop inserted rest
    else insertFrom (min start first) (max stop (saturatingAdd first len)) inserted rest

/-- Insert `[addr, addr + len)`, coalescing adjacent and overlapping entries. -/
def freeInsert (regions : List Interval) (addr len : Nat) : List Interval :=
  (insertFrom addr (saturatingAdd addr len) false regions).insertionSort
    (fun left right => left.1 <= right.1)

/-- What is left of one entry without `[removeStart, removeEnd)`. -/
def withoutInterval (removeStart removeEnd : Nat) (region : Interval) : List Interval :=
  if removeEnd <= region.1 || saturatingAdd region.1 region.2 <= removeStart then [region]
  else
    (if region.1 < removeStart then [(region.1, removeStart - region.1)] else []) ++
    (if removeEnd < saturatingAdd region.1 region.2 then
      [(removeEnd, saturatingAdd region.1 region.2 - removeEnd)] else [])

def intervalRemove (regions : List Interval) (removeStart removeEnd : Nat) : List Interval :=
  regions.flatMap (withoutInterval removeStart removeEnd)

/-! ## Coalesced lists -/

/-- The list read as a set of addresses. -/
def Covered (regions : List Interval) (byte : Nat) : Prop :=
  ∃ region ∈ regions, region.1 <= byte ∧ byte < region.1 + region.2

@[simp] theorem covered_nil (byte : Nat) : ¬ Covered [] byte := by
  rintro ⟨region, listed, _⟩
  cases listed

theorem covered_cons (region : Interval) (rest : List Interval) (byte : Nat) :
    Covered (region :: rest) byte <->
      (region.1 <= byte ∧ byte < region.1 + region.2) ∨ Covered rest byte := by
  unfold Covered
  simp

theorem covered_append (first second : List Interval) (byte : Nat) :
    Covered (first ++ second) byte <-> Covered first byte ∨ Covered second byte := by
  unfold Covered
  constructor
  · rintro ⟨region, listed, inside⟩
    rcases List.mem_append.mp listed with left | right
    · exact .inl ⟨region, left, inside⟩
    · exact .inr ⟨region, right, inside⟩
  · rintro (⟨region, listed, inside⟩ | ⟨region, listed, inside⟩)
    · exact ⟨region, List.mem_append_left _ listed, inside⟩
    · exact ⟨region, List.mem_append_right _ listed, inside⟩

/-- Sorted, disjoint and coalesced: between two entries lies at least one
address that neither covers.  Every entry is nonempty and ends inside the words. -/
structure Coalesced (regions : List Interval) : Prop where
  apart : regions.Pairwise (fun left right => left.1 + left.2 < right.1)
  nonempty : ∀ region ∈ regions, 0 < region.2
  inWords : ∀ region ∈ regions, region.1 + region.2 < wordLimit

/-- Sorted nonempty entries at least `gap` addresses apart.  Removing an empty
range can leave entries that touch. -/
structure Spaced (gap : Nat) (regions : List Interval) : Prop where
  apart : regions.Pairwise (fun left right => left.1 + left.2 + gap <= right.1)
  nonempty : ∀ region ∈ regions, 0 < region.2
  inWords : ∀ region ∈ regions, region.1 + region.2 < wordLimit

theorem coalesced_iff_spaced {regions : List Interval} : Coalesced regions <-> Spaced 1 regions :=
  ⟨fun coalesced => ⟨coalesced.apart, coalesced.nonempty, coalesced.inWords⟩,
    fun spaced => ⟨spaced.apart, spaced.nonempty, spaced.inWords⟩⟩

theorem Spaced.cons_iff {gap : Nat} {region : Interval} {rest : List Interval} :
    Spaced gap (region :: rest) <->
      (∀ other ∈ rest, region.1 + region.2 + gap <= other.1) ∧ 0 < region.2 ∧
        region.1 + region.2 < wordLimit ∧ Spaced gap rest := by
  constructor
  · rintro ⟨apart, nonempty, inWords⟩
    rw [List.pairwise_cons] at apart
    rw [List.forall_mem_cons] at nonempty inWords
    exact ⟨apart.1, nonempty.1, inWords.1, apart.2, nonempty.2, inWords.2⟩
  · rintro ⟨above, positive, small, rest⟩
    exact ⟨List.pairwise_cons.mpr ⟨above, rest.apart⟩,
      List.forall_mem_cons.mpr ⟨positive, rest.nonempty⟩,
      List.forall_mem_cons.mpr ⟨small, rest.inWords⟩⟩

namespace Coalesced

theorem nil : Coalesced [] :=
  ⟨List.Pairwise.nil, by simp, by simp⟩

theorem cons_iff {region : Interval} {rest : List Interval} :
    Coalesced (region :: rest) <->
      (∀ other ∈ rest, region.1 + region.2 < other.1) ∧ 0 < region.2 ∧
        region.1 + region.2 < wordLimit ∧ Coalesced rest := by
  simp only [coalesced_iff_spaced]
  exact Spaced.cons_iff

theorem sublist {shorter regions : List Interval} (coalesced : Coalesced regions)
    (part : shorter.Sublist regions) : Coalesced shorter :=
  ⟨coalesced.apart.sublist part, fun region listed => coalesced.nonempty region (part.subset listed),
    fun region listed => coalesced.inWords region (part.subset listed)⟩

/-- A coalesced list that covers a whole stretch has one entry around it. -/
theorem one_region {regions : List Interval} (coalesced : Coalesced regions) {start stop : Nat}
    (positive : start < stop)
    (covered : ∀ byte, start <= byte -> byte < stop -> Covered regions byte) :
    ∃ region ∈ regions, region.1 <= start ∧ stop <= region.1 + region.2 := by
  rcases covered start le_rfl positive with ⟨region, listed, below, above⟩
  refine ⟨region, listed, below, ?_⟩
  by_contra short
  rcases covered (region.1 + region.2) (Nat.le_of_lt above) (Nat.lt_of_not_le short) with
    ⟨other, member, otherBelow, otherAbove⟩
  have order := List.pairwise_iff_getElem.mp coalesced.apart
  rcases List.mem_iff_getElem.mp listed with ⟨i, iBound, atI⟩
  rcases List.mem_iff_getElem.mp member with ⟨j, jBound, atJ⟩
  rcases Nat.lt_trichotomy i j with before | same | after
  · have gap := order i j iBound jBound before
    rw [atI, atJ] at gap
    omega
  · subst same
    rw [atI] at atJ
    subst atJ
    omega
  · have gap := order j i jBound iBound after
    rw [atI, atJ] at gap
    omega

end Coalesced

/-! ## Inserting -/

variable {regions : List Interval}

theorem insertFrom_inserted {start stop : Nat}
    (above : ∀ region ∈ regions, stop < region.1) :
    insertFrom start stop true regions = regions := by
  induction regions with
  | nil => rfl
  | cons region rest ih =>
    have far := above region (by simp)
    unfold insertFrom
    rw [if_pos (by simp [far]), if_neg (by simp)]
    rw [ih (fun other listed => above other (by simp [listed]))]

/-- What the loop of `freeInsert` computes from entries kept apart. -/
theorem insertFrom_spaced {gap : Nat} (small_gap : gap <= 1) : ∀ {start stop : Nat},
    Spaced gap regions -> start < stop -> stop < wordLimit ->
      Spaced gap (insertFrom start stop false regions) ∧
      (∀ region ∈ insertFrom start stop false regions,
        start <= region.1 ∨ ∃ old ∈ regions, old.1 <= region.1) ∧
      ∀ byte, Covered (insertFrom start stop false regions) byte <->
        Covered regions byte ∨ (start <= byte ∧ byte < stop) := by
  induction regions with
  | nil =>
    intro start stop _ positive small
    have whole : start + (stop - start) = stop := by omega
    refine ⟨Spaced.cons_iff.mpr ⟨by simp, Nat.sub_pos_of_lt positive, by simpa [whole],
      List.Pairwise.nil, by simp, by simp⟩,
      ?_, ?_⟩
    · intro region listed
      rw [List.mem_singleton.mp listed]
      exact .inl le_rfl
    · intro byte
      simp [insertFrom, covered_cons, whole]
  | cons region rest ih =>
    intro start stop spaced positive small
    rcases Spaced.cons_iff.mp spaced with ⟨above, nonempty, inWords, tail⟩
    rcases region with ⟨first, len⟩
    simp only at above nonempty inWords
    have ending := saturatingAdd_of_lt inWords
    unfold insertFrom
    rw [ending]
    by_cases below : first + len < start
    · have before : ¬ stop < first := by omega
      rw [if_pos (by simp [below]), if_neg (by simp [before])]
      have merged := ih tail positive small
      refine ⟨Spaced.cons_iff.mpr ⟨?_, nonempty, inWords, merged.1⟩, ?_, ?_⟩
      · intro other listed
        rcases merged.2.1 other listed with late | ⟨old, member, le⟩
        · omega
        · have gap := above old member
          omega
      · intro other listed
        rcases List.mem_cons.mp listed with same | later
        · exact .inr ⟨(first, len), by simp, by rw [same]⟩
        · rcases merged.2.1 other later with late | ⟨old, member, le⟩
          · exact .inl late
          · exact .inr ⟨old, by simp [member], le⟩
      · intro byte
        rw [covered_cons, covered_cons, merged.2.2]
        exact or_assoc.symm
    by_cases far : stop < first
    · rw [if_pos (by simp [far]), if_pos (by simp [far])]
      have whole : start + (stop - start) = stop := by omega
      have copied : ∀ other ∈ rest, stop < other.1 := by
        intro other listed
        have gap := above other listed
        omega
      rw [insertFrom_inserted copied]
      refine ⟨Spaced.cons_iff.mpr ⟨?_, Nat.sub_pos_of_lt positive, by simpa [whole], spaced⟩,
        ?_, ?_⟩
      · intro other listed
        simp only [whole]
        rcases List.mem_cons.mp listed with same | later
        · rw [same]
          simp only
          omega
        · have gap := copied other later
          omega
      · intro other listed
        rcases List.mem_cons.mp listed with same | later
        · rw [same]
          exact .inl le_rfl
        · exact .inr ⟨other, later, le_rfl⟩
      · intro byte
        rw [covered_cons]
        simp only [whole]
        exact or_comm
    · rw [if_neg (by simp [below, far])]
      have merged := @ih (min start first) (max stop (first + len)) tail
        (by omega) (by omega)
      refine ⟨merged.1, ?_, ?_⟩
      · intro other listed
        rcases merged.2.1 other listed with late | ⟨old, member, le⟩
        · rcases Nat.le_total start first with early | early
          · exact .inl (by omega)
          · exact .inr ⟨(first, len), by simp, by simpa [Nat.min_eq_right early] using late⟩
        · exact .inr ⟨old, by simp [member], le⟩
      intro byte
      rw [merged.2.2, covered_cons]
      have hull : (min start first <= byte ∧ byte < max stop (first + len)) <->
          ((first <= byte ∧ byte < first + len) ∨ (start <= byte ∧ byte < stop)) := by
        omega
      rw [hull]
      exact or_left_comm.trans or_assoc.symm

variable {addr len : Nat}

/-- Inserting keeps the entries apart, and adds exactly the new range.  The
loop already leaves its result sorted. -/
theorem freeInsert_spaced {gap : Nat} (small_gap : gap <= 1) (spaced : Spaced gap regions)
    (positive : 0 < len) (small : addr + len < wordLimit) :
    Spaced gap (freeInsert regions addr len) ∧
      ∀ byte, Covered (freeInsert regions addr len) byte <->
        Covered regions byte ∨ (addr <= byte ∧ byte < addr + len) := by
  have merged := insertFrom_spaced small_gap spaced (by omega : addr < addr + len) small
  have sorted : freeInsert regions addr len = insertFrom addr (addr + len) false regions := by
    unfold freeInsert
    rw [saturatingAdd_of_lt small]
    refine List.Pairwise.insertionSort_eq (merged.1.apart.imp ?_)
    intro left right apart
    omega
  rw [sorted]
  exact ⟨merged.1, merged.2.2⟩

theorem freeInsert_coalesced (coalesced : Coalesced regions) (positive : 0 < len)
    (small : addr + len < wordLimit) :
    Coalesced (freeInsert regions addr len) :=
  coalesced_iff_spaced.mpr (freeInsert_spaced (Nat.le_refl 1) (coalesced_iff_spaced.mp coalesced)
    positive small).1

theorem freeInsert_covers (coalesced : Coalesced regions) (positive : 0 < len)
    (small : addr + len < wordLimit) (byte : Nat) :
    Covered (freeInsert regions addr len) byte <->
      Covered regions byte ∨ (addr <= byte ∧ byte < addr + len) :=
  (freeInsert_spaced (Nat.le_refl 1) (coalesced_iff_spaced.mp coalesced) positive small).2 byte

/-! ## Removing -/

variable {removeStart removeEnd : Nat}

theorem mem_withoutInterval {region piece : Interval} (nonempty : 0 < region.2)
    (small : region.1 + region.2 < wordLimit)
    (listed : piece ∈ withoutInterval removeStart removeEnd region) :
    region.1 <= piece.1 ∧ piece.1 + piece.2 <= region.1 + region.2 ∧ 0 < piece.2 := by
  unfold withoutInterval at listed
  rw [saturatingAdd_of_lt small] at listed
  split_ifs at listed with outside before after after
  · rw [List.mem_singleton.mp listed]
    exact ⟨le_rfl, le_rfl, nonempty⟩
  · simp only [Bool.or_eq_true, decide_eq_true_eq, not_or] at outside
    rcases List.mem_append.mp listed with front | back
    · rw [List.mem_singleton.mp front]
      simp only
      omega
    · rw [List.mem_singleton.mp back]
      simp only
      omega
  · simp only [Bool.or_eq_true, decide_eq_true_eq, not_or] at outside
    rw [List.append_nil] at listed
    rw [List.mem_singleton.mp listed]
    simp only
    omega
  · simp only [Bool.or_eq_true, decide_eq_true_eq, not_or] at outside
    rw [List.nil_append] at listed
    rw [List.mem_singleton.mp listed]
    simp only
    omega
  · cases listed

theorem withoutInterval_apart (region : Interval) (small : region.1 + region.2 < wordLimit)
    {gap : Nat} (wide : removeStart + gap <= removeEnd) :
    (withoutInterval removeStart removeEnd region).Pairwise
      (fun left right => left.1 + left.2 + gap <= right.1) := by
  unfold withoutInterval
  rw [saturatingAdd_of_lt small]
  split_ifs with outside before after after
  · exact List.pairwise_singleton _ _
  · refine List.pairwise_pair.mpr ?_
    simp only
    omega
  · exact List.pairwise_singleton _ _
  · exact List.pairwise_singleton _ _
  · exact List.Pairwise.nil

theorem withoutInterval_covers (region : Interval) (small : region.1 + region.2 < wordLimit)
    (byte : Nat) :
    Covered (withoutInterval removeStart removeEnd region) byte <->
      (region.1 <= byte ∧ byte < region.1 + region.2) ∧
        ¬ (removeStart <= byte ∧ byte < removeEnd) := by
  unfold withoutInterval
  rw [saturatingAdd_of_lt small]
  split_ifs with outside before after after
  all_goals
    simp only [Bool.or_eq_true, decide_eq_true_eq, not_or] at outside
    simp only [covered_append, covered_cons, covered_nil, or_false, false_or, false_iff]
    omega

theorem intervalRemove_spaced {gap : Nat} (spaced : Spaced gap regions)
    (wide : removeStart + gap <= removeEnd) :
    Spaced gap (intervalRemove regions removeStart removeEnd) := by
  have origin : ∀ piece ∈ intervalRemove regions removeStart removeEnd,
      ∃ region ∈ regions, region.1 <= piece.1 ∧ piece.1 + piece.2 <= region.1 + region.2 ∧
        0 < piece.2 := by
    intro piece listed
    rcases List.mem_flatMap.mp listed with ⟨region, member, part⟩
    exact ⟨region, member,
      mem_withoutInterval (spaced.nonempty region member) (spaced.inWords region member) part⟩
  refine ⟨?_, ?_, ?_⟩
  · apply List.pairwise_flatMap.mpr
    refine ⟨fun region listed =>
      withoutInterval_apart region (spaced.inWords region listed) wide, ?_⟩
    refine spaced.apart.imp_of_mem ?_
    intro left right leftListed rightListed gap leftPiece leftPart rightPiece rightPart
    have leftInside := mem_withoutInterval (spaced.nonempty left leftListed)
      (spaced.inWords left leftListed) leftPart
    have rightInside := mem_withoutInterval (spaced.nonempty right rightListed)
      (spaced.inWords right rightListed) rightPart
    omega
  · intro piece listed
    rcases origin piece listed with ⟨_, _, _, _, nonempty⟩
    exact nonempty
  · intro piece listed
    rcases origin piece listed with ⟨region, member, _, inside, _⟩
    exact Nat.lt_of_le_of_lt inside (spaced.inWords region member)

theorem intervalRemove_coalesced (coalesced : Coalesced regions)
    (positive : removeStart < removeEnd) :
    Coalesced (intervalRemove regions removeStart removeEnd) :=
  coalesced_iff_spaced.mpr (intervalRemove_spaced (coalesced_iff_spaced.mp coalesced) positive)

theorem intervalRemove_covers
    (inWords : ∀ region ∈ regions, region.1 + region.2 < wordLimit)
    (removeStart removeEnd byte : Nat) :
    Covered (intervalRemove regions removeStart removeEnd) byte <->
      Covered regions byte ∧ ¬ (removeStart <= byte ∧ byte < removeEnd) := by
  constructor
  · rintro ⟨piece, listed, inside⟩
    rcases List.mem_flatMap.mp listed with ⟨region, member, part⟩
    have whole := (withoutInterval_covers region (inWords region member) byte).mp
      ⟨piece, part, inside⟩
    exact ⟨⟨region, member, whole.1⟩, whole.2⟩
  · rintro ⟨⟨region, member, inside⟩, outside⟩
    rcases (withoutInterval_covers region (inWords region member) byte).mpr
      ⟨inside, outside⟩ with ⟨piece, part, covers⟩
    exact ⟨piece, List.mem_flatMap.mpr ⟨region, member, part⟩, covers⟩

end Aperture
end Carrick
