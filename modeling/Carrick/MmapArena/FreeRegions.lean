import Carrick.Foundation.RangeList
import Carrick.Foundation.Word

namespace Carrick
namespace MmapArena

open Foundation
open List (drop_left mem_append mem_cons mem_cons_of_mem mem_cons_self mem_flatMap mem_of_mem_drop mem_of_mem_take mem_singleton take_left)

/-!
# The free list of the host-setup mmap arena

The arena keeps the ranges that `munmap` returned as a sorted vector of
`(start, len)` pairs beside its bump cursor.  This module models the vector
edits: the generic cut of a sorted disjoint collection, the coalescing insert,
and the lowering of the cursor with its absorb loop and final truncation.

Each edit gets one specification: it keeps the list ordered, and the addresses
it covers change by exactly the edited range.  Entry ends are computed with
saturating additions, so an edited range has to end inside the 64-bit words.
-/

abbrev Region := Nat × Nat

/-- The half-open range of a `(start, len)` entry, as the source reads it. -/
def regionBounds (region : Region) : Nat × Nat :=
  (region.1, saturatingAdd region.1 region.2)

/-- Cut `[start, stop)` out of a sorted disjoint collection.  An entry that
straddles an edge of the cut keeps its outside part, rebuilt by `clip`. -/
def cutSortedDisjoint {T : Type} (items : List T) (start stop : Nat)
    (bounds : T -> Nat × Nat) (clip : T -> Nat -> Nat -> Option T) : List T :=
  if stop <= start then items
  else
    let first := partitionPoint (fun item => decide ((bounds item).2 <= start)) items
    let touched := (items.drop first).take
      (partitionPoint (fun item => decide ((bounds item).1 < stop)) (items.drop first))
    let last := first + touched.length
    match touched.head?, touched.getLast? with
    | some head, some tail =>
      let left := if (bounds head).1 < start then clip head (bounds head).1 start else none
      let right := if stop < (bounds tail).2 then clip tail stop (bounds tail).2 else none
      items.take first ++ (left.toList ++ right.toList) ++ items.drop last
    | _, _ => items

/-- Remove `[addr, addr + len)` from the free list, splitting any entry it
only partially covers. -/
def freeRegionsRemoveRange (regions : List Region) (addr len : Nat) : List Region :=
  cutSortedDisjoint regions addr (saturatingAdd addr len) regionBounds
    (fun _ start stop => some (start, stop - start))

/-- The absorb loop of `freeRegionsInsert`: widen the new range over every
following entry it overlaps or touches, and return the untouched rest. -/
def absorbTouching (newStart newEnd : Nat) : List Region -> Nat × Nat × List Region
  | [] => (newStart, newEnd, [])
  | region :: rest =>
    if newEnd < region.1 then (newStart, newEnd, region :: rest)
    else absorbTouching (min newStart region.1)
      (max newEnd (saturatingAdd region.1 region.2)) rest

/-- Insert `[addr, addr + len)`, coalescing overlapping or adjacent entries. -/
def freeRegionsInsert (regions : List Region) (addr len : Nat) : List Region :=
  let first := partitionPoint
    (fun region : Region => decide (saturatingAdd region.1 region.2 < addr)) regions
  let merged := absorbTouching addr (saturatingAdd addr len) (regions.drop first)
  regions.take first ++ (merged.1, merged.2.1 - merged.1) :: merged.2.2

/-- The absorb loop of `lowerMmapNext`: while an entry ends exactly at the
cursor, drop it and move the cursor to its start.  Every turn removes one
entry, so as many turns as there are entries always reach the loop's exit. -/
def absorbBelow : Nat -> Nat -> List Region -> Nat × List Region
  | 0, cursor, regions => (cursor, regions)
  | turns + 1, cursor, regions =>
    let index := partitionPoint
      (fun region : Region => decide (saturatingAdd region.1 region.2 < cursor)) regions
    match regions[index]? with
    | some region =>
      if checkedAdd region.1 region.2 = some cursor then
        absorbBelow turns region.1 (regions.eraseIdx index)
      else (cursor, regions)
    | none => (cursor, regions)

/-- Clip the last surviving entry to the part below the cursor. -/
def clipLast (cursor : Nat) (regions : List Region) : List Region :=
  match regions.getLast? with
  | some region =>
    if cursor < saturatingAdd region.1 region.2 then
      regions.dropLast ++ [(region.1, cursor - region.1)]
    else regions
  | none => regions

/-- Lower the bump cursor to `newNext`: absorb what is contiguous below it,
then drop every entry at or above the final cursor. -/
def lowerMmapNext (regions : List Region) (newNext : Nat) : Nat × List Region :=
  let absorbed := absorbBelow regions.length newNext regions
  let keep := partitionPoint (fun region : Region => decide (region.1 < absorbed.1)) absorbed.2
  (absorbed.1, clipLast absorbed.1 (absorbed.2.take keep))

/-! ## Reading the list as a set of addresses -/

/-- The free list read as a set of addresses. -/
abbrev Free (regions : List Region) (address : Nat) : Prop :=
  Covers regionBounds regions address

abbrev Sorted (regions : List Region) : Prop :=
  Ordered regionBounds regions

/-! ## Cutting a range out -/

section Cut

variable {T : Type} {bounds : T -> Nat × Nat} {items : List T}

/-- What a cut leaves of one entry. -/
def outsideCut (bounds : T -> Nat × Nat) (clip : T -> Nat -> Nat -> Option T) (start stop : Nat)
    (item : T) : List T :=
  if stop <= (bounds item).1 ∨ (bounds item).2 <= start then [item]
  else
    (if (bounds item).1 < start then clip item (bounds item).1 start else none).toList ++
      (if stop < (bounds item).2 then clip item stop (bounds item).2 else none).toList

variable {clip : T -> Nat -> Nat -> Option T} {start stop : Nat}

theorem flatMap_outside
    (outside : ∀ item ∈ items, stop <= (bounds item).1 ∨ (bounds item).2 <= start) :
    items.flatMap (outsideCut bounds clip start stop) = items := by
  induction items with
  | nil => rfl
  | cons head rest ih =>
    rw [List.flatMap_cons, ih (fun item member => outside item (mem_cons_of_mem _ member))]
    unfold outsideCut
    rw [if_pos (outside head mem_cons_self)]
    rfl

/-- Of the entries that meet a cut only the first reaches below it and only the last above. -/
private theorem flatMap_touched {first last : T} {touched : List T} (ordered : Ordered bounds touched)
    (touches : ∀ item ∈ touched, start < (bounds item).2 ∧ (bounds item).1 < stop)
    (isHead : touched.head? = some first) (isLast : touched.getLast? = some last) :
    touched.flatMap (outsideCut bounds clip start stop) =
      (if (bounds first).1 < start then clip first (bounds first).1 start else none).toList ++
        (if stop < (bounds last).2 then clip last stop (bounds last).2 else none).toList := by
  induction touched generalizing first with
  | nil => cases isHead
  | cons head rest ih =>
    cases isHead
    have meets := touches head mem_cons_self
    have pieces : outsideCut bounds clip start stop head = _ := if_neg (by omega)
    rw [List.flatMap_cons, pieces]
    cases rest with
    | nil =>
      cases isLast
      exact List.append_nil _
    | cons second others =>
      have parts := Ordered.cons_iff.mp ordered
      have gap := parts.2.1 second mem_cons_self
      have behind := touches second (mem_cons_of_mem _ mem_cons_self)
      rw [ih parts.2.2 (fun item member => touches item (mem_cons_of_mem _ member)) rfl isLast,
        if_neg (by omega : ¬ stop < (bounds head).2), if_neg (by omega : ¬ (bounds second).1 < start)]
      simp

theorem cutSortedDisjoint_eq (ordered : Ordered bounds items) (nonempty : start < stop) :
    cutSortedDisjoint items start stop bounds clip =
      items.flatMap (outsideCut bounds clip start stop) := by
  rcases ordered.window nonempty with
    ⟨before, touched, after, whole, first, _, early, touches, late⟩
  have inner := (Ordered.append_iff.mp (Ordered.append_iff.mp (whole ▸ ordered)).2.1).1
  have meets : partitionPoint (fun item => decide ((bounds item).1 < stop)) (touched ++ after) =
      touched.length := partitionPoint_append
    (fun item member => decide_eq_true (touches item member).2)
    (fun item member => decide_eq_false (Nat.not_lt.mpr (late item member)))
  unfold cutSortedDisjoint
  rw [if_neg (Nat.not_le_of_lt nonempty), first, whole, List.flatMap_append, List.flatMap_append,
    flatMap_outside (fun item member => .inr (early item member)),
    flatMap_outside (fun item member => .inl (late item member))]
  dsimp only
  rw [drop_left, meets, take_left]
  cases isHead : touched.head? with
  | none =>
    rw [List.head?_eq_none_iff.mp isHead]
    rfl
  | some head =>
    cases isLast : touched.getLast? with
    | none =>
      rw [List.getLast?_eq_none_iff.mp isLast] at isHead
      cases isHead
    | some last =>
      dsimp only
      rw [flatMap_touched inner touches isHead isLast, take_left, <- List.drop_drop,
        drop_left, drop_left, List.append_assoc]

/-- A remainder that `clip` makes has exactly the bounds asked of it, and is
absent exactly when those bounds are empty. -/
private theorem remainder_spec {piece : Option T}
    (made : start < stop -> ∃ entry, piece = some entry ∧ bounds entry = (start, stop)) :
    Ordered bounds (if start < stop then piece else none).toList ∧
      (∀ entry ∈ (if start < stop then piece else none).toList,
        bounds entry = (start, stop)) ∧
      ∀ address, Covers bounds (if start < stop then piece else none).toList address <->
        start <= address ∧ address < stop := by
  by_cases nonempty : start < stop
  · rcases made nonempty with ⟨entry, same, entryBounds⟩
    rw [if_pos nonempty, same]
    refine ⟨Ordered.cons_iff.mpr ⟨?_, ?_, Ordered.nil⟩, ?_, ?_⟩
    · rw [entryBounds]
      exact nonempty
    · intro item impossible
      cases impossible
    · intro item member
      rw [mem_singleton.mp member, entryBounds]
    · intro address
      rw [Option.toList_some, covers_cons, entryBounds]
      simp
  · rw [if_neg nonempty]
    refine ⟨Ordered.nil, ?_, ?_⟩
    · intro entry impossible
      cases impossible
    · intro address
      simp
      omega

private theorem outsideCut_spec {item : T} (filled : (bounds item).1 < (bounds item).2)
    (nonempty : start < stop)
    (clips : ∀ start stop, (bounds item).1 <= start -> start < stop -> stop <= (bounds item).2 ->
      ∃ piece, clip item start stop = some piece ∧ bounds piece = (start, stop)) :
    Ordered bounds (outsideCut bounds clip start stop item) ∧
      (∀ piece ∈ outsideCut bounds clip start stop item,
        (bounds item).1 <= (bounds piece).1 ∧ (bounds piece).2 <= (bounds item).2) ∧
      ∀ address, Covers bounds (outsideCut bounds clip start stop item) address <->
        ((bounds item).1 <= address ∧ address < (bounds item).2) ∧
          ¬ (start <= address ∧ address < stop) := by
  unfold outsideCut
  by_cases apart : stop <= (bounds item).1 ∨ (bounds item).2 <= start
  · rw [if_pos apart]
    refine ⟨Ordered.cons_iff.mpr ⟨filled, nofun, Ordered.nil⟩,
      fun piece member => ?_, fun address => ?_⟩
    · rw [mem_singleton.mp member]
      exact ⟨le_rfl, le_rfl⟩
    · rw [covers_cons]
      simp only [covers_nil, or_false]
      omega
  rw [if_neg apart]
  have left := remainder_spec (fun straddles =>
    clips (bounds item).1 start le_rfl straddles (by omega))
  have right := remainder_spec (fun straddles =>
    clips stop (bounds item).2 (by omega) straddles le_rfl)
  refine ⟨Ordered.append_iff.mpr ⟨left.1, right.1, ?_⟩, fun piece member => ?_, fun address => ?_⟩
  · intro first firstMember second secondMember
    rw [left.2.1 first firstMember, right.2.1 second secondMember]
    exact Nat.le_of_lt nonempty
  · rcases mem_append.mp member with inLeft | inRight
    · rw [left.2.1 piece inLeft]
      exact ⟨le_rfl, by omega⟩
    · rw [right.2.1 piece inRight]
      exact ⟨by omega, le_rfl⟩
  · rw [covers_append, left.2.2, right.2.2]
    omega

/-- A cut keeps the collection ordered and removes exactly its range. -/
theorem cutSortedDisjoint_spec (ordered : Ordered bounds items)
    (clips : ∀ item start stop, (bounds item).1 <= start -> start < stop -> stop <= (bounds
      item).2 -> ∃ piece, clip item start stop = some piece ∧ bounds piece = (start, stop))
    (start stop : Nat) :
    Ordered bounds (cutSortedDisjoint items start stop bounds clip) ∧
      ∀ address, Covers bounds (cutSortedDisjoint items start stop bounds clip) address <->
        Covers bounds items address ∧ ¬ (start <= address ∧ address < stop) := by
  by_cases nonempty : start < stop
  · have each := fun item member =>
      outsideCut_spec (ordered.nonempty item member) nonempty (clips item)
    rw [cutSortedDisjoint_eq ordered nonempty]
    refine ⟨⟨?_, List.pairwise_flatMap.mpr ⟨fun item member => (each item member).1.disjoint, ?_⟩⟩, ?_⟩
    · intro piece member
      rcases mem_flatMap.mp member with ⟨item, inItems, inPieces⟩
      exact (each item inItems).1.nonempty piece inPieces
    · refine List.Pairwise.imp_of_mem ?_ ordered.disjoint
      intro first second inFirst inSecond gap left inLeft right inRight
      have lower := ((each first inFirst).2.1 left inLeft).2
      have upper := ((each second inSecond).2.1 right inRight).1
      omega
    intro address
    constructor
    · rintro ⟨piece, member, covered⟩
      rcases mem_flatMap.mp member with ⟨item, inItems, inPieces⟩
      have kept := ((each item inItems).2.2 address).mp ⟨piece, inPieces, covered⟩
      exact ⟨⟨item, inItems, kept.1⟩, kept.2⟩
    · rintro ⟨⟨item, inItems, covered⟩, outside⟩
      rcases ((each item inItems).2.2 address).mpr ⟨covered, outside⟩ with ⟨piece, inPieces, holds⟩
      exact ⟨piece, mem_flatMap.mpr ⟨item, inItems, inPieces⟩, holds⟩
  · have unchanged : cutSortedDisjoint items start stop bounds clip = items :=
      if_pos (Nat.le_of_not_lt nonempty)
    rw [unchanged]
    exact ⟨ordered, fun address => ⟨fun covered => ⟨covered, by omega⟩, fun covered => covered.1⟩⟩

end Cut

/-! ## Edits of the free list -/

theorem regionBounds_piece {start stop : Nat} (ordered : start < stop) (inside : stop < wordLimit) :
    regionBounds (start, stop - start) = (start, stop) := by
  have total : start + (stop - start) = stop := by omega
  unfold regionBounds
  rw [saturatingAdd_of_lt (by omega), total]

theorem regionBounds_lt (region : Region) : (regionBounds region).2 < wordLimit := by
  have positive := wordLimit_pos
  unfold regionBounds saturatingAdd
  omega

variable {regions : List Region}

theorem freeRegionsRemoveRange_spec (sorted : Sorted regions) {addr len : Nat}
    (inRange : addr + len < wordLimit) :
    Sorted (freeRegionsRemoveRange regions addr len) ∧
      ∀ address, Free (freeRegionsRemoveRange regions addr len) address <->
        Free regions address ∧ ¬ (addr <= address ∧ address < addr + len) := by
  unfold freeRegionsRemoveRange
  rw [saturatingAdd_of_lt inRange]
  refine cutSortedDisjoint_spec sorted ?_ addr (addr + len)
  intro item start stop _ nonempty upper
  exact ⟨_, rfl, regionBounds_piece nonempty
    (Nat.lt_of_le_of_lt upper (regionBounds_lt item))⟩

@[simp] theorem regionBounds_fst (region : Region) : (regionBounds region).1 = region.1 := rfl

theorem free_cons (region : Region) (rest : List Region) (address : Nat) :
    Free (region :: rest) address <->
      (region.1 <= address ∧ address < (regionBounds region).2) ∨ Free rest address :=
  covers_cons region rest address

theorem free_append (first second : List Region) (address : Nat) :
    Free (first ++ second) address <-> Free first address ∨ Free second address :=
  covers_append first second address

/-- What the absorb loop of an insertion returns: one range that covers the
new one and every absorbed entry, and an ordered rest that starts past it. -/
structure Absorbed (regions : List Region) (newStart newEnd : Nat)
    (merged : Nat × Nat × List Region) : Prop where
  nonempty : merged.1 < merged.2.1
  inRange : merged.2.1 < wordLimit
  start_eq : merged.1 = newStart ∨ ∃ region ∈ regions, merged.1 = region.1
  rest_sublist : merged.2.2.Sublist regions
  rest_after : ∀ region ∈ merged.2.2, merged.2.1 <= region.1
  covers_iff : ∀ address,
    ((merged.1 <= address ∧ address < merged.2.1) ∨ Free merged.2.2 address) <->
      (newStart <= address ∧ address < newEnd) ∨ Free regions address

theorem absorbTouching_spec (sorted : Sorted regions) {newStart newEnd : Nat}
    (nonempty : newStart < newEnd) (inRange : newEnd < wordLimit)
    (reaches : ∀ region ∈ regions, newStart <= (regionBounds region).2) :
    Absorbed regions newStart newEnd (absorbTouching newStart newEnd regions) := by
  induction regions generalizing newStart newEnd with
  | nil => exact ⟨nonempty, inRange, .inl rfl, List.Sublist.refl _,
      nofun, fun _ => Iff.rfl⟩
  | cons region rest ih =>
    have parts := Ordered.cons_iff.mp sorted
    have positive : region.1 < (regionBounds region).2 := parts.1
    by_cases separate : newEnd < region.1
    · have stop : absorbTouching newStart newEnd (region :: rest) =
          (newStart, newEnd, region :: rest) := if_pos separate
      rw [stop]
      refine ⟨nonempty, inRange, .inl rfl, List.Sublist.refl _, ?_, fun _ => Iff.rfl⟩
      intro other member
      change newEnd <= other.1
      rcases mem_cons.mp member with same | later
      · rw [same]
        exact Nat.le_of_lt separate
      · have gap := parts.2.1 other later
        rw [regionBounds_fst] at gap
        omega
    have continued : absorbTouching newStart newEnd (region :: rest) =
        absorbTouching (min newStart region.1) (max newEnd (regionBounds region).2) rest :=
      if_neg separate
    rw [continued]
    have touching := reaches region mem_cons_self
    have below := regionBounds_lt region
    have startLt : min newStart region.1 < max newEnd (regionBounds region).2 := by omega
    have endLt : max newEnd (regionBounds region).2 < wordLimit := by omega
    have merged := ih parts.2.2 startLt endLt (by
      intro other member
      have gap := parts.2.1 other member
      have := parts.2.2.nonempty other member
      rw [regionBounds_fst] at gap this
      omega)
    refine ⟨merged.nonempty, merged.inRange, ?_, merged.rest_sublist.cons _,
      merged.rest_after, ?_⟩
    · rcases merged.start_eq with same | ⟨other, member, same⟩
      · rcases Nat.le_total newStart region.1 with first | second
        · exact .inl (by omega)
        · exact .inr ⟨region, mem_cons_self, by omega⟩
      · exact .inr ⟨other, mem_cons_of_mem _ member, same⟩
    intro address
    rw [merged.covers_iff address, free_cons]
    constructor
    · rintro (inUnion | inRest)
      · by_cases inNew : newStart <= address ∧ address < newEnd
        · exact .inl inNew
        · exact .inr (.inl (by omega))
      · exact .inr (.inr inRest)
    · rintro (inNew | inRegion | inRest)
      · exact .inl (by omega)
      · exact .inl (by omega)
      · exact .inr inRest

/-- The entries that end before a range, and the others with what the absorb
loop makes of them. -/
theorem insertion_parts (sorted : Sorted regions) {addr stop : Nat} (nonempty : addr < stop)
    (inRange : stop < wordLimit) :
    ∃ skipped remaining, regions = skipped ++ remaining ∧
      partitionPoint (fun region : Region => decide (saturatingAdd region.1 region.2 < addr))
        regions = skipped.length ∧
      (∀ region ∈ skipped, (regionBounds region).2 < addr) ∧
      Absorbed remaining addr stop (absorbTouching addr stop remaining) := by
  have ends := sorted.split_by_end (fun stop => decide (stop < addr)) (by
    intro lower upper le closed
    exact decide_eq_true (Nat.lt_of_le_of_lt le (of_decide_eq_true closed)))
  exact ⟨_, _, List.takeWhile_append_dropWhile.symm, rfl,
    fun region member => of_decide_eq_true (ends.1 region member),
    absorbTouching_spec (sorted.sublist (List.dropWhile_sublist _)) nonempty inRange
      (fun region member => Nat.le_of_not_lt (of_decide_eq_false (ends.2 region member)))⟩

/-- An insertion keeps the list ordered and adds exactly the new range. -/
theorem freeRegionsInsert_spec (sorted : Sorted regions) {addr len : Nat} (positive : 0 < len)
    (inRange : addr + len < wordLimit) :
    Sorted (freeRegionsInsert regions addr len) ∧
      ∀ address, Free (freeRegionsInsert regions addr len) address <->
        Free regions address ∨ (addr <= address ∧ address < addr + len) := by
  rcases insertion_parts sorted (by omega : addr < addr + len) inRange with
    ⟨skipped, remaining, rfl, index, short, merged⟩
  have parts := Ordered.append_iff.mp sorted
  unfold freeRegionsInsert
  dsimp only
  rw [saturatingAdd_of_lt inRange, index, take_left, drop_left]
  generalize absorbTouching addr (addr + len) remaining = result at merged
  have newBounds : regionBounds (result.1, result.2.1 - result.1) = (result.1, result.2.1) :=
    regionBounds_piece merged.nonempty merged.inRange
  have skippedBefore : ∀ region ∈ skipped, (regionBounds region).2 <= result.1 := by
    intro region member
    have ends := short region member
    rcases merged.start_eq with same | ⟨other, otherMember, same⟩
    · omega
    · have gap := parts.2.2 region member other otherMember
      rw [regionBounds_fst] at gap
      omega
  refine ⟨?_, ?_⟩
  · refine Ordered.append_iff.mpr ⟨parts.1, Ordered.cons_iff.mpr ⟨?_, ?_, ?_⟩, ?_⟩
    · rw [newBounds]
      exact merged.nonempty
    · intro region member
      rw [newBounds]
      exact merged.rest_after region member
    · exact parts.2.1.sublist merged.rest_sublist
    intro left leftMember right rightMember
    rcases mem_cons.mp rightMember with same | inRest
    · rw [same, newBounds]
      exact skippedBefore left leftMember
    · exact parts.2.2 left leftMember right (merged.rest_sublist.subset inRest)
  · intro address
    rw [free_append, free_cons, newBounds, merged.covers_iff address, free_append]
    tauto

theorem eraseIdx_spec (sorted : Sorted regions) {position : Nat} {region : Region}
    (found : regions[position]? = some region) :
    Sorted (regions.eraseIdx position) ∧
      ∀ address, Free (regions.eraseIdx position) address <->
        Free regions address ∧ ¬ (region.1 <= address ∧ address < (regionBounds region).2) := by
  refine ⟨sorted.sublist (List.eraseIdx_sublist _ _), ?_⟩
  intro address
  rcases List.getElem?_eq_some_iff.mp found with ⟨inside, same⟩
  have decomposition : regions = regions.take position ++ region :: regions.drop (position + 1) := by
    rw [<- same, List.getElem_cons_drop, List.take_append_drop]
  have parts := Ordered.append_iff.mp (decomposition ▸ sorted)
  have suffix := Ordered.cons_iff.mp parts.2.1
  rw [List.eraseIdx_eq_take_drop_succ, free_append]
  conv_rhs => rw [decomposition, free_append, free_cons]
  constructor
  · rintro (⟨other, member, lower, upper⟩ | ⟨other, member, lower, upper⟩)
    · have gap := parts.2.2 other member region mem_cons_self
      rw [regionBounds_fst] at gap
      exact ⟨.inl ⟨other, member, lower, upper⟩, by omega⟩
    · have gap := suffix.2.1 other member
      exact ⟨.inr (.inr ⟨other, member, lower, upper⟩), by omega⟩
  · rintro ⟨inBefore | inRegion | inAfter, outside⟩
    · exact .inl inBefore
    · exact False.elim (outside inRegion)
    · exact .inr inAfter

/-! ## Lowering the cursor -/

/-- What the absorb loop of a lowering guarantees of its result: the cursor only
passes free addresses, and what stays below it is as free as before. -/
structure AbsorbedBelow (regions : List Region) (cursor : Nat)
    (lowered : Nat × List Region) : Prop where
  lower : lowered.1 <= cursor
  kept_sublist : lowered.2.Sublist regions
  free_iff : ∀ address, address < lowered.1 ->
    (Free lowered.2 address <-> Free regions address)
  absorbed_free : ∀ address, lowered.1 <= address -> address < cursor -> Free regions address
  unstraddled : (∀ region ∈ regions, region.1 < cursor ->
      (regionBounds region).2 <= cursor) ->
    ∀ region ∈ lowered.2, region.1 < lowered.1 ->
      (regionBounds region).2 <= lowered.1

/-- One turn of the loop, or its exit: the search stops at the only entry
that can end at the cursor. -/
private theorem absorbBelow_succ (sorted : Sorted regions) (turns cursor : Nat)
    (inRange : cursor + 1 < wordLimit) :
    (absorbBelow (turns + 1) cursor regions = (cursor, regions) ∧
      ∀ region ∈ regions, (regionBounds region).2 ≠ cursor) ∨
    ∃ skipped region rest, regions = skipped ++ region :: rest ∧
      (regionBounds region).2 = cursor ∧
      absorbBelow (turns + 1) cursor regions = absorbBelow turns region.1 (skipped ++ rest) := by
  have ends := sorted.split_by_end (fun stop => decide (stop < cursor)) (by
    intro lower upper le closed
    exact decide_eq_true (Nat.lt_of_le_of_lt le (of_decide_eq_true closed)))
  have search : partitionPoint (fun region : Region =>
      decide (saturatingAdd region.1 region.2 < cursor)) regions =
      (regions.takeWhile fun region => decide ((regionBounds region).2 < cursor)).length := rfl
  have decomposition := List.takeWhile_append_dropWhile
    (p := fun region : Region => decide ((regionBounds region).2 < cursor)) (l := regions)
  generalize regions.takeWhile
    (fun region => decide ((regionBounds region).2 < cursor)) = skipped at *
  generalize regions.dropWhile
    (fun region => decide ((regionBounds region).2 < cursor)) = remaining at *
  have skippedEnds : ∀ region ∈ skipped, (regionBounds region).2 < cursor :=
    fun region member => of_decide_eq_true (ends.1 region member)
  have entry : regions[skipped.length]? = remaining.head? := by
    rw [<- decomposition, List.getElem?_append_right le_rfl, Nat.sub_self,
      List.head?_eq_getElem?]
  cases remaining with
  | nil =>
    refine .inl ⟨?_, ?_⟩
    · simp only [absorbBelow, search, entry, List.head?_nil]
    · intro other member
      rw [<- decomposition, List.append_nil] at member
      exact Nat.ne_of_lt (skippedEnds other member)
  | cons region rest =>
    have atLeast : cursor <= (regionBounds region).2 := Nat.le_of_not_lt
      (of_decide_eq_false (ends.2 region mem_cons_self))
    by_cases exactEnd : checkedAdd region.1 region.2 = some cursor
    · refine .inr ⟨skipped, region, rest, decomposition.symm, ?_, ?_⟩
      · have total := checkedAdd_eq_some_iff.mp exactEnd
        unfold regionBounds
        rw [saturatingAdd_of_lt (by omega)]
        exact total.1
      · have erased : regions.eraseIdx skipped.length = skipped ++ rest := by
          rw [<- decomposition, List.eraseIdx_append_of_length_le le_rfl, Nat.sub_self,
            List.eraseIdx_cons_zero]
        simp only [absorbBelow, search, entry, List.head?_cons, if_pos exactEnd, erased]
    have different : (regionBounds region).2 ≠ cursor := by
      intro same
      apply exactEnd
      apply checkedAdd_eq_some_iff.mpr
      unfold regionBounds saturatingAdd at same
      omega
    refine .inl ⟨?_, ?_⟩
    · simp only [absorbBelow, search, entry, List.head?_cons, if_neg exactEnd]
    intro other member
    have parts := Ordered.append_iff.mp (decomposition.symm ▸ sorted)
    rw [<- decomposition] at member
    rcases mem_append.mp member with inSkipped | inRemaining
    · exact Nat.ne_of_lt (skippedEnds other inSkipped)
    rcases mem_cons.mp inRemaining with same | later
    · exact same ▸ different
    · have gap := (Ordered.cons_iff.mp parts.2.1).2.1 other later
      have := parts.2.1.nonempty other inRemaining
      omega

private theorem AbsorbedBelow.refl (regions : List Region) (cursor : Nat) :
    AbsorbedBelow regions cursor (cursor, regions) := by
  refine ⟨le_rfl, List.Sublist.refl _, fun _ _ => Iff.rfl, ?_, fun fits => fits⟩
  intro address lower upper
  exact False.elim (Nat.lt_irrefl _ (Nat.lt_of_le_of_lt lower upper))

variable {cursor : Nat}

theorem absorbBelow_spec (turns : Nat) (sorted : Sorted regions)
    (inRange : cursor + 1 < wordLimit) :
    AbsorbedBelow regions cursor (absorbBelow turns cursor regions) := by
  induction turns generalizing cursor regions with
  | zero => exact AbsorbedBelow.refl regions cursor
  | succ turns ih =>
    rcases absorbBelow_succ sorted turns cursor inRange with
      ⟨stopped, _⟩ | ⟨skipped, region, rest, decomposition, ends, continued⟩
    · rw [stopped]
      exact AbsorbedBelow.refl regions cursor
    rw [continued]
    have parts := Ordered.append_iff.mp (decomposition ▸ sorted)
    have suffix := Ordered.cons_iff.mp parts.2.1
    have positive : region.1 < (regionBounds region).2 := suffix.1
    have removed : (skipped ++ rest).Sublist regions := by
      rw [decomposition]
      exact List.Sublist.append (List.Sublist.refl _) (List.sublist_cons_self _ _)
    have lowered := ih (sorted.sublist removed)
      (by omega : region.1 + 1 < wordLimit)
    have sameBelow : ∀ address, address < region.1 ->
        (Free (skipped ++ rest) address <-> Free regions address) := by
      intro address below
      rw [decomposition, free_append, free_append, free_cons]
      constructor
      · rintro (inSkipped | inRest)
        · exact .inl inSkipped
        · exact .inr (.inr inRest)
      · rintro (inSkipped | inRegion | inRest)
        · exact .inl inSkipped
        · omega
        · exact .inr inRest
    refine ⟨?_, lowered.kept_sublist.trans removed, ?_, ?_, ?_⟩
    · have := lowered.lower
      omega
    · intro address below
      have := lowered.lower
      exact (lowered.free_iff address below).trans (sameBelow address (by omega))
    · intro address lower upper
      by_cases below : address < region.1
      · exact (sameBelow address below).mp (lowered.absorbed_free address lower below)
      · exact ⟨region, decomposition ▸ List.mem_append_right _ mem_cons_self,
          by rw [regionBounds_fst]; omega, by omega⟩
    intro _
    apply lowered.unstraddled
    intro other member below
    rcases mem_append.mp member with inSkipped | inRest
    · exact parts.2.2 other inSkipped region mem_cons_self
    · have gap := suffix.2.1 other inRest
      rw [regionBounds_fst] at gap
      omega

/-- With as many turns as entries the loop leaves nothing ending at the
cursor. -/
theorem absorbBelow_exhaustive (turns : Nat) (sorted : Sorted regions)
    (inRange : cursor + 1 < wordLimit) (enough : regions.length <= turns) :
    ∀ region ∈ (absorbBelow turns cursor regions).2,
      (regionBounds region).2 ≠ (absorbBelow turns cursor regions).1 := by
  induction turns generalizing cursor regions with
  | zero =>
    intro region member
    rw [List.length_eq_zero_iff.mp (Nat.le_zero.mp enough)] at member
    cases member
  | succ turns ih =>
    rcases absorbBelow_succ sorted turns cursor inRange with
      ⟨stopped, differs⟩ | ⟨skipped, region, rest, decomposition, ends, continued⟩
    · rw [stopped]
      exact differs
    rw [continued]
    have parts := Ordered.append_iff.mp (decomposition ▸ sorted)
    have positive : region.1 < (regionBounds region).2 := (Ordered.cons_iff.mp parts.2.1).1
    apply ih
    · apply sorted.sublist
      rw [decomposition]
      exact List.Sublist.append (List.Sublist.refl _) (List.sublist_cons_self _ _)
    · omega
    · rw [decomposition] at enough
      simp only [List.length_append, List.length_cons] at enough ⊢
      omega

/-- Clipping the last entry of an ordered list whose entries all start below
the cursor keeps exactly what lies below it. -/
theorem clipLast_spec (sorted : Sorted regions)
    (starts : ∀ region ∈ regions, region.1 < cursor) (inRange : cursor < wordLimit) :
    Sorted (clipLast cursor regions) ∧
      ∀ address, Free (clipLast cursor regions) address <->
        Free regions address ∧ address < cursor := by
  rcases regions.eq_nil_or_concat with empty | ⟨initial, last, concatenated⟩
  · subst empty
    exact ⟨sorted, fun address => ⟨fun covered => False.elim (covers_nil address covered),
      fun covered => covered.1⟩⟩
  rw [List.concat_eq_append] at concatenated
  have parts := Ordered.append_iff.mp (concatenated ▸ sorted)
  have lastStarts := starts last (by rw [concatenated]; simp)
  have initialBelow : ∀ address, Free initial address -> address < cursor := by
    rintro address ⟨region, member, _, upper⟩
    have gap := parts.2.2 region member last (List.mem_singleton_self _)
    rw [regionBounds_fst] at gap
    omega
  by_cases straddles : cursor < (regionBounds last).2
  · have computed : clipLast cursor regions = initial ++ [(last.1, cursor - last.1)] := by
      rw [concatenated]
      unfold clipLast
      rw [List.getLast?_concat, List.dropLast_concat]
      exact if_pos straddles
    have newBounds : regionBounds (last.1, cursor - last.1) = (last.1, cursor) :=
      regionBounds_piece lastStarts inRange
    rw [computed]
    refine ⟨Ordered.append_iff.mpr ⟨parts.1, Ordered.cons_iff.mpr ⟨?_, ?_, Ordered.nil⟩, ?_⟩, ?_⟩
    · rw [newBounds]
      exact lastStarts
    · intro region impossible
      cases impossible
    · intro left leftMember right rightMember
      rw [mem_singleton.mp rightMember, newBounds]
      exact parts.2.2 left leftMember last (List.mem_singleton_self _)
    intro address
    rw [concatenated, free_append, free_append, free_cons, free_cons, newBounds]
    constructor
    · rintro (inInitial | inLast | impossible)
      · exact ⟨.inl inInitial, initialBelow address inInitial⟩
      · exact ⟨.inr (.inl ⟨inLast.1, by omega⟩), inLast.2⟩
      · exact False.elim (covers_nil address impossible)
    · rintro ⟨inInitial | inLast | impossible, below⟩
      · exact .inl inInitial
      · exact .inr (.inl ⟨inLast.1, below⟩)
      · exact False.elim (covers_nil address impossible)
  · have computed : clipLast cursor regions = regions := by
      rw [concatenated]
      unfold clipLast
      rw [List.getLast?_concat]
      exact if_neg straddles
    rw [computed]
    refine ⟨sorted, fun address => ⟨fun covered => ⟨covered, ?_⟩, fun covered => covered.1⟩⟩
    rw [concatenated, free_append, free_cons] at covered
    rcases covered with inInitial | inLast | impossible
    · exact initialBelow address inInitial
    · omega
    · exact False.elim (covers_nil address impossible)

/-- What lowering the cursor to `newNext` guarantees: the list keeps exactly
the free addresses below the final cursor, everything between the final
cursor and `newNext` was free, and unless an entry straddles `newNext`
nothing free is left directly below the cursor. -/
structure Lowered (regions : List Region) (newNext : Nat) (result : Nat × List Region) : Prop where
  sorted : Sorted result.2
  lower : result.1 <= newNext
  free_iff : ∀ address, Free result.2 address <-> Free regions address ∧ address < result.1
  absorbed_free : ∀ address, result.1 <= address -> address < newNext -> Free regions address
  tight : (∀ region ∈ regions, region.1 < newNext ->
      (regionBounds region).2 <= newNext) ->
    ∀ address, address + 1 = result.1 -> ¬ Free result.2 address

theorem lowerMmapNext_spec (sorted : Sorted regions) {newNext : Nat}
    (inRange : newNext + 1 < wordLimit) :
    Lowered regions newNext (lowerMmapNext regions newNext) := by
  have absorbed := absorbBelow_spec regions.length sorted inRange
  have exhaustive := absorbBelow_exhaustive regions.length sorted inRange le_rfl
  have computed : lowerMmapNext regions newNext =
      ((absorbBelow regions.length newNext regions).1,
        clipLast (absorbBelow regions.length newNext regions).1
          ((absorbBelow regions.length newNext regions).2.takeWhile fun region =>
            decide (region.1 < (absorbBelow regions.length newNext regions).1))) := by
    unfold lowerMmapNext
    simp only [take_partitionPoint]
  rw [computed]
  generalize absorbBelow regions.length newNext regions = lowered at *
  have keptSorted : Sorted lowered.2 := sorted.sublist absorbed.kept_sublist
  have starts := keptSorted.split_by_start (fun start => decide (start < lowered.1)) (by
    intro lower upper le closed
    exact decide_eq_true (Nat.lt_of_le_of_lt le (of_decide_eq_true closed)))
  have clipped := clipLast_spec (keptSorted.sublist (List.takeWhile_sublist
    (fun region : Region => decide (region.1 < lowered.1))))
    (fun region member => of_decide_eq_true (starts.1 region member))
    (by have := absorbed.lower; omega)
  have keptFree : ∀ address, address < lowered.1 ->
      (Free (lowered.2.takeWhile fun region => decide (region.1 < lowered.1)) address <->
        Free lowered.2 address) := by
    intro address below
    constructor
    · rintro ⟨region, member, covered⟩
      exact ⟨region, (List.takeWhile_sublist _).subset member, covered⟩
    rintro ⟨region, member, lower, upper⟩
    rw [<- List.takeWhile_append_dropWhile
      (p := fun region : Region => decide (region.1 < lowered.1)) (l := lowered.2)] at member
    rcases mem_append.mp member with kept | dropped
    · exact ⟨region, kept, lower, upper⟩
    · have above := of_decide_eq_false (starts.2 region dropped)
      rw [regionBounds_fst] at above lower
      omega
  have freeIff : ∀ address, Free (clipLast lowered.1
      (lowered.2.takeWhile fun region => decide (region.1 < lowered.1))) address <->
      Free regions address ∧ address < lowered.1 := by
    intro address
    rw [clipped.2 address]
    constructor
    · rintro ⟨covered, below⟩
      exact ⟨(absorbed.free_iff address below).mp ((keptFree address below).mp covered), below⟩
    · rintro ⟨covered, below⟩
      exact ⟨(keptFree address below).mpr ((absorbed.free_iff address below).mpr covered), below⟩
  refine ⟨clipped.1, absorbed.lower, freeIff, absorbed.absorbed_free, ?_⟩
  intro unstraddled address atCursor covered
  have below : address < lowered.1 := by
    have : address + 1 = lowered.1 := atCursor
    omega
  rcases (absorbed.free_iff address below).mpr ((freeIff address).mp covered).1 with
    ⟨region, member, lower, upper⟩
  have fits := absorbed.unstraddled unstraddled region member (by
    rw [regionBounds_fst] at lower
    omega)
  have atEnd : address + 1 = lowered.1 := atCursor
  exact exhaustive region member (by omega)

/-! ## Entry starts

No edit invents an address: each entry of a result starts where an old entry,
the inserted range or the removed range's end did, and a lowered cursor is the
requested one or the start of an absorbed entry. -/

section Starts

variable {good : Nat -> Prop}

theorem absorbTouching_starts (old : ∀ region ∈ regions, good region.1)
    {newStart newEnd : Nat} (new : good newStart) :
    good (absorbTouching newStart newEnd regions).1 ∧
      ∀ region ∈ (absorbTouching newStart newEnd regions).2.2, good region.1 := by
  induction regions generalizing newStart newEnd with
  | nil => exact ⟨new, nofun⟩
  | cons region rest ih =>
    unfold absorbTouching
    split
    · exact ⟨new, old⟩
    apply ih
    · exact fun other member => old other (mem_cons_of_mem _ member)
    rcases Nat.le_total newStart region.1 with first | second
    · rw [Nat.min_eq_left first]
      exact new
    · rw [Nat.min_eq_right second]
      exact old region mem_cons_self

theorem freeRegionsInsert_starts (old : ∀ region ∈ regions, good region.1)
    {addr : Nat} (new : good addr) (len : Nat) :
    ∀ region ∈ freeRegionsInsert regions addr len, good region.1 := by
  intro region member
  unfold freeRegionsInsert at member
  rcases mem_append.mp member with inBefore | inRest
  · exact old region (mem_of_mem_take inBefore)
  rcases mem_cons.mp inRest with same | inRest
  · rw [same]
    exact (absorbTouching_starts (fun other kept => old other (mem_of_mem_drop kept)) new).1
  · exact (absorbTouching_starts (fun other kept => old other (mem_of_mem_drop kept))
      new).2 region inRest

theorem freeRegionsRemoveRange_starts (old : ∀ region ∈ regions, good region.1)
    {addr len : Nat} (new : good (saturatingAdd addr len)) :
    ∀ region ∈ freeRegionsRemoveRange regions addr len, good region.1 := by
  intro region member
  unfold freeRegionsRemoveRange cutSortedDisjoint at member
  split at member
  · exact old region member
  simp only at member
  split at member
  · rename_i head last isHead isLast
    have headMember := mem_of_mem_take (List.mem_of_mem_head? isHead)
    rcases mem_append.mp member with inFront | inAfter
    · rcases mem_append.mp inFront with inBefore | inRemainders
      · exact old region (mem_of_mem_take inBefore)
      rcases mem_append.mp inRemainders with inLeft | inRight
      · split at inLeft
        · rw [mem_singleton.mp inLeft]
          exact old head (mem_of_mem_drop headMember)
        · cases inLeft
      · split at inRight
        · rw [mem_singleton.mp inRight]
          exact new
        · cases inRight
    · exact old region (mem_of_mem_drop inAfter)
  · exact old region member

theorem absorbBelow_starts (turns : Nat) (old : ∀ region ∈ regions, good region.1)
    {cursor : Nat} (new : good cursor) :
    good (absorbBelow turns cursor regions).1 ∧
      ∀ region ∈ (absorbBelow turns cursor regions).2, good region.1 := by
  induction turns generalizing cursor regions with
  | zero => exact ⟨new, old⟩
  | succ turns ih =>
    unfold absorbBelow
    simp only
    split
    · rename_i region found
      split
      · apply ih
        · exact fun other member => old other (List.mem_of_mem_eraseIdx member)
        · exact old region (List.mem_of_getElem? found)
      · exact ⟨new, old⟩
    · exact ⟨new, old⟩

theorem lowerMmapNext_starts (old : ∀ region ∈ regions, good region.1)
    {newNext : Nat} (new : good newNext) :
    good (lowerMmapNext regions newNext).1 ∧
      ∀ region ∈ (lowerMmapNext regions newNext).2, good region.1 := by
  have absorbed := absorbBelow_starts regions.length old new
  refine ⟨absorbed.1, ?_⟩
  intro region member
  unfold lowerMmapNext clipLast at member
  simp only at member
  split at member
  · rename_i last found
    have lastGood := absorbed.2 last (mem_of_mem_take (List.mem_of_mem_getLast? found))
    split at member
    · rcases mem_append.mp member with inFront | isLast
      · exact absorbed.2 region (mem_of_mem_take ((List.dropLast_sublist _).subset inFront))
      · rw [mem_singleton.mp isLast]
        exact lastGood
    · exact absorbed.2 region (mem_of_mem_take member)
  · exact absorbed.2 region (mem_of_mem_take member)

end Starts

end MmapArena
end Carrick
