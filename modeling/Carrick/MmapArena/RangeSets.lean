import Carrick.MmapArena.Placement

namespace Carrick
namespace MmapArena

open Foundation

/-!
# Sets of ranges

Beside the free list the memory state keeps the locked ranges, the mappings
that `/proc` shows and other sets of ranges.  A sorted set is cut and extended
in place, a set in any order is rebuilt entry by entry.
-/

/-- A start and a length; the end is a saturating sum, as for a region. -/
abbrev GuestMemoryRange := Region

def GuestMemoryRange.new (start stop : Nat) : Option GuestMemoryRange :=
  if start < stop then some (start, stop - start) else none

def lockedRangesInsert (ranges : List GuestMemoryRange) (range : GuestMemoryRange) :
    List GuestMemoryRange :=
  let index := partitionPoint
    (fun existing : Region => decide (saturatingAdd existing.1 existing.2 < range.1)) ranges
  let merged := absorbTouching range.1 (regionBounds range).2 (ranges.drop index)
  match GuestMemoryRange.new merged.1 merged.2.1 with
  | some whole => ranges.take index ++ whole :: merged.2.2
  | none => ranges

def lockedRangesRemove (ranges : List GuestMemoryRange) (remove : GuestMemoryRange) :
    List GuestMemoryRange :=
  cutSortedDisjoint ranges remove.1 (regionBounds remove).2 regionBounds
    (fun _ => GuestMemoryRange.new)

def unsortedRangesRemove (ranges : List GuestMemoryRange) (remove : GuestMemoryRange) :
    List GuestMemoryRange :=
  let stop := (regionBounds remove).2
  if ranges.any (fun range => decide (remove.1 < (regionBounds range).2) && decide (range.1 < stop))
  then
    ranges.flatMap fun range =>
      if stop <= range.1 ∨ (regionBounds range).2 <= remove.1 then [range]
      else
        (if range.1 < remove.1 then GuestMemoryRange.new range.1 remove.1 else none).toList ++
          (if stop < (regionBounds range).2 then GuestMemoryRange.new stop (regionBounds range).2
          else none).toList
  else ranges

def rangesContainPage (ranges : List GuestMemoryRange) (page : Nat) : Bool :=
  let index := partitionPoint (fun range => decide ((regionBounds range).2 <= page)) ranges
  ranges[index]?.any fun range => decide (range.1 <= page)

inductive ProcMapSharing where
  | privateMap
  | sharedMap
  deriving DecidableEq

structure ProcMapsEntry where
  start : Nat
  stop : Nat
  read : Bool
  write : Bool
  execute : Bool
  sharing : ProcMapSharing
  path : String
  deriving DecidableEq

def ProcMapsEntry.bounds (map : ProcMapsEntry) : Nat × Nat := (map.start, map.stop)

def trimDynamicMapsForRange (maps : List ProcMapsEntry) (start len : Nat) : List ProcMapsEntry :=
  match checkedAdd start len with
  | none => []
  | some stop =>
    cutSortedDisjoint maps start stop ProcMapsEntry.bounds
      (fun map start stop => some { map with start := start, stop := stop })

def trimProcMapsForRange (maps : List ProcMapsEntry) (start len : Nat) : List ProcMapsEntry :=
  match checkedAdd start len with
  | none => []
  | some stop =>
    if maps.any (fun map => rangesOverlap start len map.start map.stop) then
      maps.flatMap fun map =>
        if !rangesOverlap start len map.start map.stop then [map]
        else
          (if map.start < start then [{ map with stop := start }] else []) ++
            (if stop < map.stop then [{ map with start := stop }] else [])
    else maps

/-! ## Rebuilding entry by entry -/

variable {ranges : List GuestMemoryRange} {range : GuestMemoryRange}

theorem unsortedRangesRemove_eq (ranges : List GuestMemoryRange) (remove : GuestMemoryRange) :
    unsortedRangesRemove ranges remove = ranges.flatMap (outsideCut regionBounds
      (fun _ => GuestMemoryRange.new) remove.1 (regionBounds remove).2) := by
  unfold unsortedRangesRemove
  dsimp only
  split_ifs with meets
  · rfl
  refine (flatMap_outside fun item member => ?_).symm
  have apart := mt (fun both => List.any_eq_true.mpr ⟨item, member, both⟩) meets
  rw [Bool.and_eq_true, decide_eq_true_eq, decide_eq_true_eq] at apart
  rw [regionBounds_fst]
  omega

theorem trimProcMapsForRange_eq (maps : List ProcMapsEntry) {start len stop : Nat}
    (added : checkedAdd start len = some stop) :
    trimProcMapsForRange maps start len = maps.flatMap (outsideCut ProcMapsEntry.bounds
      (fun map start stop => some { map with start := start, stop := stop }) start stop) := by
  have overlaps : ∀ map : ProcMapsEntry, rangesOverlap start len map.start map.stop = true <->
      start < map.stop ∧ map.start < stop := by
    intro map
    unfold rangesOverlap
    rw [added, Bool.and_eq_true, decide_eq_true_eq, decide_eq_true_eq]
  unfold trimProcMapsForRange
  rw [added]
  dsimp only
  split_ifs with meets
  · refine List.flatMap_congr fun map _ => ?_
    unfold outsideCut ProcMapsEntry.bounds
    dsimp only
    by_cases here : start < map.stop ∧ map.start < stop
    · have meets : ¬ (stop <= map.start ∨ map.stop <= start) := by omega
      rw [(overlaps map).mpr here, if_neg meets, if_neg (by simp)]
      split_ifs <;> rfl
    · have apart : stop <= map.start ∨ map.stop <= start := by omega
      rw [if_pos apart, if_pos (by simpa using mt (overlaps map).mp here)]
  · refine (flatMap_outside fun map member => ?_).symm
    have apart := mt (fun both => List.any_eq_true.mpr ⟨map, member, (overlaps map).mpr both⟩) meets
    change stop <= map.start ∨ map.stop <= start
    omega

theorem trimDynamicMapsForRange_spec {maps : List ProcMapsEntry}
    (ordered : Ordered ProcMapsEntry.bounds maps) {start len : Nat} (positive : 0 < len) :
    trimDynamicMapsForRange maps start len = trimProcMapsForRange maps start len ∧
      Ordered ProcMapsEntry.bounds (trimDynamicMapsForRange maps start len) := by
  unfold trimDynamicMapsForRange
  cases added : checkedAdd start len with
  | none =>
    unfold trimProcMapsForRange
    rw [added]
    exact ⟨rfl, Ordered.nil⟩
  | some stop =>
    have total := (checkedAdd_eq_some_iff.mp added).1
    rw [trimProcMapsForRange_eq maps added]
    exact ⟨cutSortedDisjoint_eq ordered (by omega),
      (cutSortedDisjoint_spec ordered (fun map start stop _ _ _ => ⟨_, rfl, rfl⟩) start stop).1⟩

theorem new_of_lt {start stop : Nat} (order : start < stop) :
    GuestMemoryRange.new start stop = some (start, stop - start) :=
  if_pos order

theorem lockedRangesRemove_spec (sorted : Sorted ranges) (nonempty : range.1 < (regionBounds range).2) :
    lockedRangesRemove ranges range = unsortedRangesRemove ranges range ∧
      freeRegionsRemoveRange ranges range.1 range.2 = unsortedRangesRemove ranges range ∧
      Sorted (unsortedRangesRemove ranges range) := by
  rw [unsortedRangesRemove_eq]
  refine ⟨cutSortedDisjoint_eq sorted nonempty, ?_, ?_⟩
  · refine (cutSortedDisjoint_eq sorted nonempty).trans (List.flatMap_congr fun item _ => ?_)
    have remainder : ∀ start stop, (if start < stop then GuestMemoryRange.new start stop else none) =
        if start < stop then some (start, stop - start) else none := by
      intro start stop
      unfold GuestMemoryRange.new
      split_ifs <;> rfl
    unfold outsideCut
    dsimp only
    rw [remainder, remainder]
  · rw [<- cutSortedDisjoint_eq sorted nonempty]
    refine (cutSortedDisjoint_spec sorted (fun item start stop _ order below => ?_) _ _).1
    exact ⟨_, new_of_lt order, regionBounds_piece order
      (Nat.lt_of_le_of_lt below (regionBounds_lt item))⟩

/-! ## Extending a set -/

/-- Nonempty and sorted, and no two entries overlap or abut. -/
structure Merged (ranges : List GuestMemoryRange) : Prop where
  nonempty : ∀ range ∈ ranges, range.1 < (regionBounds range).2
  apart : ranges.Pairwise fun first second => (regionBounds first).2 < second.1

theorem Merged.sublist {shorter : List GuestMemoryRange} (merged : Merged ranges)
    (kept : shorter.Sublist ranges) : Merged shorter :=
  ⟨fun range member => merged.nonempty range (kept.subset member), merged.apart.sublist kept⟩

/-- The absorb loop stops before an entry that does not touch the new range. -/
theorem absorbTouching_apart (sorted : Sorted ranges) (newStart newEnd : Nat) :
    ∀ range ∈ (absorbTouching newStart newEnd ranges).2.2,
      (absorbTouching newStart newEnd ranges).2.1 < range.1 := by
  induction ranges generalizing newStart newEnd with
  | nil => exact nofun
  | cons head rest ih =>
    have parts := Ordered.cons_iff.mp sorted
    unfold absorbTouching
    split_ifs with separate
    · intro range member
      rcases List.mem_cons.mp member with rfl | later
      · exact separate
      · have gap : (regionBounds head).2 <= range.1 := parts.2.1 range later
        have filled : head.1 < (regionBounds head).2 := parts.1
        exact Nat.lt_trans separate (Nat.lt_of_lt_of_le filled gap)
    · exact ih parts.2.2 _ _

/-- An insertion leaves a sorted list of the union, merged if the list was. -/
theorem freeRegionsInsert_merges (sorted : Sorted ranges) (nonempty : range.1 < (regionBounds range).2) :
    lockedRangesInsert ranges range = freeRegionsInsert ranges range.1 range.2 ∧
      Sorted (freeRegionsInsert ranges range.1 range.2) ∧
      (∀ address, Free (freeRegionsInsert ranges range.1 range.2) address <->
        Free ranges address ∨ (range.1 <= address ∧ address < (regionBounds range).2)) ∧
      (Merged ranges -> Merged (freeRegionsInsert ranges range.1 range.2)) := by
  have below := regionBounds_lt range
  have whole : range.1 + ((regionBounds range).2 - range.1) = (regionBounds range).2 := by omega
  have saturated : saturatingAdd range.1 range.2 = (regionBounds range).2 := rfl
  have spec := freeRegionsInsert_spec sorted (by omega : 0 < (regionBounds range).2 - range.1)
    (by omega : range.1 + ((regionBounds range).2 - range.1) < wordLimit)
  have same : freeRegionsInsert ranges range.1 ((regionBounds range).2 - range.1) =
      freeRegionsInsert ranges range.1 range.2 := by
    unfold freeRegionsInsert
    rw [saturatingAdd_of_lt (by omega), whole, saturated]
  rw [same, whole] at spec
  refine ⟨?_, spec.1, spec.2, ?_⟩
  all_goals
    rcases insertion_parts sorted nonempty below with
      ⟨skipped, remaining, rfl, index, short, absorbed⟩
    unfold freeRegionsInsert
    dsimp only
    rw [saturated, index, List.take_left, List.drop_left]
  · unfold lockedRangesInsert
    dsimp only
    rw [index, List.take_left, List.drop_left, new_of_lt absorbed.nonempty]
  intro merged
  have after := absorbTouching_apart (Ordered.append_iff.mp sorted).2.1 range.1 (regionBounds range).2
  generalize absorbTouching range.1 (regionBounds range).2 remaining = result at absorbed after
  have newBounds : regionBounds (result.1, result.2.1 - result.1) = (result.1, result.2.1) :=
    regionBounds_piece absorbed.nonempty absorbed.inRange
  have rest := merged.sublist (absorbed.rest_sublist.trans (List.sublist_append_right _ _))
  have pairs := List.pairwise_append.mp merged.apart
  refine ⟨fun item member => ?_, List.pairwise_append.mpr ⟨pairs.1, List.pairwise_cons.mpr
    ⟨fun item member => ?_, rest.apart⟩, fun left inLeft right inRight => ?_⟩⟩
  · rcases List.mem_append.mp member with inSkipped | inRest
    · exact merged.nonempty item (List.mem_append_left _ inSkipped)
    · rcases List.mem_cons.mp inRest with isNew | later
      · rw [isNew, newBounds]
        exact absorbed.nonempty
      · exact rest.nonempty item later
  · rw [newBounds]
    exact after item member
  rcases List.mem_cons.mp inRight with isNew | later
  · rw [isNew]
    change _ < result.1
    rcases absorbed.start_eq with atNew | ⟨other, inRemaining, atOther⟩
    · rw [atNew]
      exact short left inLeft
    · rw [atOther]
      exact pairs.2.2 left inLeft other inRemaining
  · exact pairs.2.2 left inLeft right (absorbed.rest_sublist.subset later)

/-! ## Looking up a page -/

theorem rangesContainPage_iff (sorted : Sorted ranges) (page : Nat) :
    rangesContainPage ranges page = true <-> Free ranges page := by
  have ends := sorted.split_by_end (fun stop => decide (stop <= page)) (by
    intro lower upper le closed
    exact decide_eq_true (Nat.le_trans le (of_decide_eq_true closed)))
  have skipped : ¬ Free (ranges.takeWhile fun range => decide ((regionBounds range).2 <= page)) page := by
    rintro ⟨range, member, _, inside⟩
    exact Nat.not_lt.mpr (of_decide_eq_true (ends.1 range member)) inside
  have whole := List.takeWhile_append_dropWhile
    (p := fun range => decide ((regionBounds range).2 <= page)) (l := ranges)
  have covered := free_append (ranges.takeWhile fun range => decide ((regionBounds range).2 <= page))
    (ranges.dropWhile fun range => decide ((regionBounds range).2 <= page)) page
  rw [whole, or_iff_right skipped] at covered
  unfold rangesContainPage
  dsimp only
  rw [covered, <- List.head?_drop, drop_partitionPoint]
  have rest := sorted.sublist
    (List.dropWhile_sublist fun range => decide ((regionBounds range).2 <= page))
  cases found : ranges.dropWhile fun range => decide ((regionBounds range).2 <= page) with
  | nil => simp
  | cons head others =>
    rw [found] at ends rest
    have reaches := Nat.lt_of_not_le (of_decide_eq_false (ends.2 head List.mem_cons_self))
    rw [List.head?_cons, Option.any_some, decide_eq_true_eq, free_cons]
    constructor
    · exact fun starts => .inl ⟨starts, reaches⟩
    rintro (inHead | ⟨range, member, starts, _⟩)
    · exact inHead.1
    · have gap := (Ordered.cons_iff.mp rest).2.1 range member
      have filled : head.1 < (regionBounds head).2 := (Ordered.cons_iff.mp rest).1
      omega

/-- Cutting a sorted set of ranges in place gives what the rebuild from all its
entries gives, and extending and searching it agree with its members. -/
theorem sorted_sets_match_rebuilds :
    (∀ maps start len, Ordered ProcMapsEntry.bounds maps -> 0 < len ->
      trimDynamicMapsForRange maps start len = trimProcMapsForRange maps start len ∧
        Ordered ProcMapsEntry.bounds (trimDynamicMapsForRange maps start len)) ∧
    (∀ (ranges : List GuestMemoryRange) range, Sorted ranges -> range.1 < (regionBounds range).2 ->
      (lockedRangesRemove ranges range = unsortedRangesRemove ranges range ∧
        freeRegionsRemoveRange ranges range.1 range.2 = unsortedRangesRemove ranges range ∧
        Sorted (unsortedRangesRemove ranges range)) ∧
      lockedRangesInsert ranges range = freeRegionsInsert ranges range.1 range.2 ∧
      Sorted (freeRegionsInsert ranges range.1 range.2) ∧
      (∀ address, Free (freeRegionsInsert ranges range.1 range.2) address <->
        Free ranges address ∨ (range.1 <= address ∧ address < (regionBounds range).2)) ∧
      (Merged ranges -> Merged (freeRegionsInsert ranges range.1 range.2))) ∧
    ∀ (ranges : List GuestMemoryRange) page, Sorted ranges ->
      (rangesContainPage ranges page = true <-> Free ranges page) :=
  ⟨fun _ _ _ ordered positive => trimDynamicMapsForRange_spec ordered positive,
    fun _ _ sorted nonempty =>
      ⟨lockedRangesRemove_spec sorted nonempty, freeRegionsInsert_merges sorted nonempty⟩,
    fun _ page sorted => rangesContainPage_iff sorted page⟩

/-- Entries that abut stay so when a range is inserted elsewhere, and the
rebuild for an empty range splits the entry around it. -/
theorem abutting_entries_stay :
    Sorted [(0, 1), (1, 1)] ∧ ¬ Merged (freeRegionsInsert [(0, 1), (1, 1)] 10 1) ∧
      ¬ Merged (lockedRangesInsert [(0, 1), (1, 1)] (10, 1)) ∧
      let maps : List ProcMapsEntry := [⟨0, 2, true, true, false, .privateMap, ""⟩]
      Ordered ProcMapsEntry.bounds maps ∧
        trimDynamicMapsForRange maps 1 0 ≠ trimProcMapsForRange maps 1 0 := by
  have abut : ¬ Merged [(0, 1), (1, 1), (10, 1)] := by
    rintro ⟨_, apart⟩
    exact absurd apart (by decide +kernel)
  refine ⟨⟨by decide +kernel, by decide +kernel⟩, abut, abut, ⟨by decide +kernel, by decide +kernel⟩, by decide +kernel⟩

/-- A page between two locked pages joins them, and its removal parts them. -/
theorem middle_page_joins :
    lockedRangesInsert [(0, 4096), (8192, 4096)] (4096, 4096) = [(0, 12288)] := by
  have sorted : Sorted [(0, 4096), (8192, 4096)] := ⟨by decide +kernel, by decide +kernel⟩
  rw [(sorted_sets_match_rebuilds.2.1 _ (4096, 4096) sorted (by decide +kernel)).2.1]
  decide +kernel

/-! ## Runs of edits -/

theorem Merged.sorted (merged : Merged ranges) : Sorted ranges :=
  ⟨merged.nonempty, merged.apart.imp Nat.le_of_lt⟩

/-- What a cut leaves of an entry lies in the entry, with the cut between its two pieces. -/
theorem outsideCut_apart {start stop : Nat} (nonempty : start < stop) (item : GuestMemoryRange) :
    (outsideCut regionBounds (fun _ => GuestMemoryRange.new) start stop item).Pairwise
        (fun first second => (regionBounds first).2 < second.1) ∧
      ∀ piece ∈ outsideCut regionBounds (fun _ => GuestMemoryRange.new) start stop item,
        item.1 <= piece.1 ∧ (regionBounds piece).2 <= (regionBounds item).2 := by
  have below := regionBounds_lt item
  have piece : ∀ start stop, start < stop -> stop <= (regionBounds item).2 ->
      (regionBounds (start, stop - start)).2 = stop := fun start stop order inside =>
    congrArg Prod.snd (regionBounds_piece order (Nat.lt_of_le_of_lt inside below))
  unfold outsideCut GuestMemoryRange.new
  rw [regionBounds_fst]
  grind

theorem lockedRangesRemove_merged (merged : Merged ranges)
    (nonempty : range.1 < (regionBounds range).2) : Merged (lockedRangesRemove ranges range) := by
  have spec := lockedRangesRemove_spec merged.sorted nonempty
  have each := outsideCut_apart nonempty
  rw [spec.1]
  refine ⟨spec.2.2.nonempty, ?_⟩
  rw [unsortedRangesRemove_eq]
  refine List.pairwise_flatMap.mpr ⟨fun item _ => (each item).1, merged.apart.imp ?_⟩
  intro first second gap left inLeft right inRight
  have lower := (each first).2 left inLeft
  have upper := (each second).2 right inRight
  omega

/-- Locking pages inserts their range; unlocking and unmapping remove it.  The
range of an edit is not empty. -/
structure RangeEdit where
  inserts : Bool
  range : GuestMemoryRange
  nonempty : range.1 < (regionBounds range).2

namespace RangeEdit

def covers (page : Nat) (edit : RangeEdit) : Bool :=
  decide (edit.range.1 <= page ∧ page < (regionBounds edit.range).2)

def run (ranges : List GuestMemoryRange) (edit : RangeEdit) : List GuestMemoryRange :=
  if edit.inserts then lockedRangesInsert ranges edit.range
  else lockedRangesRemove ranges edit.range

theorem run_spec (edit : RangeEdit) (merged : Merged ranges) :
    Merged (run ranges edit) ∧ ∀ page, rangesContainPage (run ranges edit) page =
      if edit.covers page then edit.inserts else rangesContainPage ranges page := by
  rcases edit with ⟨inserts, range, nonempty⟩
  have covered (page : Nat) : covers page ⟨inserts, range, nonempty⟩ = true <-> _ :=
    decide_eq_true_iff
  have found := rangesContainPage_iff merged.sorted
  cases inserts with
  | true =>
    have spec := freeRegionsInsert_merges merged.sorted nonempty
    rw [run, if_pos rfl, spec.1]
    refine ⟨spec.2.2.2 merged, fun page => ?_⟩
    have after := rangesContainPage_iff spec.2.1 page
    rw [spec.2.2.1, <- found, <- covered] at after
    grind
  | false =>
    have kept := lockedRangesRemove_merged merged nonempty
    rw [run, if_neg nofun]
    refine ⟨kept, fun page => ?_⟩
    have cut := (cutSortedDisjoint_spec merged.sorted (fun item start stop _ order below =>
      ⟨_, new_of_lt order, regionBounds_piece order (Nat.lt_of_le_of_lt below (regionBounds_lt item))⟩)
      range.1 (regionBounds range).2).2 page
    have after := (rangesContainPage_iff kept.sorted page).trans
      (cut.trans (and_congr (found page).symm (not_congr (covered page).symm)))
    grind

end RangeEdit

/-- Through any run of edits the set stays merged, and the last edit that covers
a page decides whether the search finds it. -/
theorem last_edit_decides_the_page (edits : List RangeEdit) (merged : Merged ranges) :
    Merged (edits.foldl RangeEdit.run ranges) ∧
      ∀ page, rangesContainPage (edits.foldl RangeEdit.run ranges) page =
        ((edits.reverse.find? (RangeEdit.covers page)).map RangeEdit.inserts).getD
          (rangesContainPage ranges page) := by
  induction edits generalizing ranges with
  | nil => exact ⟨merged, fun _ => rfl⟩
  | cons edit rest ih =>
    have spec := edit.run_spec merged
    refine ⟨(ih spec.1).1, fun page => ?_⟩
    rw [List.foldl_cons, (ih spec.1).2, spec.2, List.reverse_cons, List.find?_append]
    cases rest.reverse.find? (RangeEdit.covers page) with
    | some last => rfl
    | none => cases seen : edit.covers page <;> simp [seen]

/-- Locking three pages and unlocking the middle one. -/
theorem unlocked_page_is_gone :
    rangesContainPage ([⟨true, (0, 12288), by decide⟩, ⟨false, (4096, 4096), by decide⟩].foldl
      RangeEdit.run []) 4096 = false :=
  (last_edit_decides_the_page _ ⟨List.forall_mem_nil _, .nil⟩).2 4096

end MmapArena
end Carrick
