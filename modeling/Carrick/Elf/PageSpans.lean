import Carrick.Foundation.RangeList
import Carrick.Foundation.Word
import Mathlib.Data.List.Sort

namespace Carrick
namespace Elf

open Foundation

/-!
# The page permissions of a load plan

`ro_page_spans` and `rw_page_spans` cut the `PT_LOAD` segments of a plan into
page-granular spans: the first takes the writable pages out of the read-only
segments and lets executable pages win, the second splits the writable segments
where an executable one shares a page.  What a span says about an address is
compared with what the segments that touch its page say.
-/

/-- The page of the leaf tables of both guests. -/
def page : Nat := 4096

def floor (value : Nat) : Nat :=
  value - value % page

def ceil (value : Nat) : Option Nat :=
  (checkedAdd value (page - 1)).map floor

structure SegmentPerms where
  read : Bool
  write : Bool
  execute : Bool
deriving DecidableEq, Repr

structure LoadSegment where
  virtualAddress : Nat
  memorySize : Nat
  perms : SegmentPerms
deriving DecidableEq, Repr

structure LoadPlan where
  segments : List LoadSegment

/-- The read-only and the writable spans of the source have the same fields. -/
structure PageSpan where
  start : Nat
  len : Nat
  exec : Bool
deriving DecidableEq, Repr

/-- The page-rounded extent of a segment, if its end can be rounded. -/
def LoadSegment.extent (segment : LoadSegment) : Option (Nat × Nat) :=
  (checkedAdd segment.virtualAddress segment.memorySize).bind fun stop =>
    (ceil stop).map fun rounded => (floor segment.virtualAddress, rounded)

/-- Subtract one extent from every piece; a piece can split in two. -/
def clip (pieces : List (Nat × Nat)) (cut : Nat × Nat) : List (Nat × Nat) :=
  pieces.flatMap fun piece =>
    if cut.2 <= piece.1 ∨ piece.2 <= cut.1 then [piece]
    else
      (if piece.1 < cut.1 then [(piece.1, cut.1)] else []) ++
        (if cut.2 < piece.2 then [(cut.2, piece.2)] else [])

def spansOf (exec : Bool) (pieces : List (Nat × Nat)) : List PageSpan :=
  (pieces.filter fun piece => piece.1 < piece.2).map fun piece =>
    ⟨piece.1, piece.2 - piece.1, exec⟩

namespace LoadPlan

def writableExtents (plan : LoadPlan) : List (Nat × Nat) :=
  (plan.segments.filter fun segment =>
    segment.perms.write && decide (0 < segment.memorySize)).filterMap LoadSegment.extent

def execExtents (plan : LoadPlan) : List (Nat × Nat) :=
  (plan.segments.filter fun segment =>
    segment.perms.execute && decide (0 < segment.memorySize)).filterMap LoadSegment.extent

/-- The read-only spans before executable pages are taken out of the others. -/
def unresolvedSpans (plan : LoadPlan) : List PageSpan :=
  plan.segments.flatMap fun segment =>
    if segment.perms.write = true ∨ segment.perms.read = false ∨ segment.memorySize = 0 then []
    else
      match segment.extent with
      | none => []
      | some whole => spansOf segment.perms.execute (plan.writableExtents.foldl clip [whole])

def roPageSpans (plan : LoadPlan) : List PageSpan :=
  let out := plan.unresolvedSpans
  let execExtents := (out.filter PageSpan.exec).map fun span => (span.start, span.start + span.len)
  out.flatMap fun span =>
    if span.exec then [span]
    else spansOf false (execExtents.foldl clip [(span.start, span.start + span.len)])

/-- The order of `sort_unstable` on pairs. -/
def pairOrder (first second : Nat × Nat) : Bool :=
  first.1 < second.1 || (first.1 == second.1 && first.2 <= second.2)

/-- Split the range from `cursor` to `stop` at the shared extents. -/
def splitShared (stop : Nat) : Nat -> List (Nat × Nat) -> List PageSpan
  | cursor, [] => if cursor < stop then [⟨cursor, stop - cursor, false⟩] else []
  | cursor, (first, last) :: rest =>
    (if cursor < first then [⟨cursor, first - cursor, false⟩] else []) ++
      if cursor < last then
        ⟨max first cursor, last - max first cursor, true⟩ :: splitShared stop last rest
      else splitShared stop cursor rest

def sharedWith (plan : LoadPlan) (start stop : Nat) : List (Nat × Nat) :=
  ((plan.execExtents.filter fun extent => decide (extent.1 < stop) && decide (start < extent.2)).map
    fun extent => (max extent.1 start, min extent.2 stop)).mergeSort pairOrder

def rwPageSpans (plan : LoadPlan) : List PageSpan :=
  plan.segments.flatMap fun segment =>
    if segment.perms.write = false ∨ segment.memorySize = 0 then []
    else
      match segment.extent with
      | none => []
      | some (start, stop) =>
        if segment.perms.execute then [⟨start, stop - start, true⟩]
        else splitShared stop start (plan.sharedWith start stop)

end LoadPlan

/-! ## What the spans should say -/

/-- Some byte of the segment lies in the page of the address. -/
def LoadSegment.Touches (segment : LoadSegment) (address : Nat) : Prop :=
  ∃ byte, byte / page = address / page ∧ segment.virtualAddress <= byte ∧
    byte < segment.virtualAddress + segment.memorySize

def PageSpan.Covers (span : PageSpan) (address : Nat) : Prop :=
  span.start <= address ∧ address < span.start + span.len

/-- Some span over the address says `exec`. -/
def States (spans : List PageSpan) (address : Nat) (exec : Bool) : Prop :=
  ∃ span ∈ spans, span.exec = exec ∧ span.Covers address

def InSpans (spans : List PageSpan) (address : Nat) : Prop :=
  ∃ span ∈ spans, span.Covers address

/-- A segment of a kind touches the page of the address. -/
def LoadPlan.Touched (plan : LoadPlan) (kind : SegmentPerms -> Bool) (address : Nat) : Prop :=
  ∃ segment ∈ plan.segments, kind segment.perms = true ∧ segment.Touches address

structure PagePermissions (plan : LoadPlan) : Prop where
  whole : ∀ address, (InSpans plan.roPageSpans address ∨ InSpans plan.rwPageSpans address) <->
    plan.Touched (fun _ => true) address
  writable : ∀ address, InSpans plan.rwPageSpans address <->
    plan.Touched SegmentPerms.write address
  apart : ∀ address, InSpans plan.rwPageSpans address -> ¬ InSpans plan.roPageSpans address
  executable : ∀ address span, span ∈ plan.roPageSpans ++ plan.rwPageSpans ->
    span.Covers address -> (span.exec = true <-> plan.Touched SegmentPerms.execute address)

/-- The end of every segment can be rounded to a page, and no page is left to
segments that can be neither read nor written. -/
structure PagesAccounted (plan : LoadPlan) : Prop where
  ends : ∀ segment ∈ plan.segments, 0 < segment.memorySize ->
    segment.virtualAddress + segment.memorySize <= wordLimit - page
  shared : ∀ segment ∈ plan.segments, segment.perms.write = false ->
    segment.perms.read = false -> ∀ address, segment.Touches address ->
    plan.Touched SegmentPerms.write address ∨
      plan.Touched (fun perms => perms.read && !perms.write &&
        (!segment.perms.execute || perms.execute)) address

/-! ## Cutting pieces -/

theorem covers_clip (pieces : List (Nat × Nat)) (cut : Nat × Nat) (address : Nat) :
    Covers id (clip pieces cut) address <->
      Covers id pieces address ∧ ¬ (cut.1 <= address ∧ address < cut.2) := by
  induction pieces with
  | nil => simp [clip, Covers]
  | cons piece rest ih =>
    have parts : clip (piece :: rest) cut = clip [piece] cut ++ clip rest cut := by
      simp [clip]
    have alone : Covers id (clip [piece] cut) address <->
        (piece.1 <= address ∧ address < piece.2) ∧ ¬ (cut.1 <= address ∧ address < cut.2) := by
      simp only [clip, List.flatMap_cons, List.flatMap_nil, List.append_nil]
      split_ifs <;> simp [covers_cons] <;> omega
    rw [parts, covers_append, alone, ih, covers_cons, id, or_and_right]

theorem covers_foldl_clip (cuts pieces : List (Nat × Nat)) (address : Nat) :
    Covers id (cuts.foldl clip pieces) address <->
      Covers id pieces address ∧ ¬ Covers id cuts address := by
  induction cuts generalizing pieces with
  | nil => simp
  | cons cut rest ih =>
    rw [List.foldl_cons, ih, covers_clip, covers_cons, and_assoc, not_or, id]

theorem covers_single (piece : Nat × Nat) (address : Nat) :
    Covers id [piece] address <-> piece.1 <= address ∧ address < piece.2 := by
  simp [covers_cons]

theorem states_spansOf (exec said : Bool) (pieces : List (Nat × Nat)) (address : Nat) :
    States (spansOf exec pieces) address said <-> said = exec ∧ Covers id pieces address := by
  unfold spansOf
  constructor
  · rintro ⟨span, member, same, covered⟩
    rcases List.mem_map.mp member with ⟨piece, listed, rfl⟩
    have parts := List.mem_filter.mp listed
    have room : piece.1 < piece.2 := of_decide_eq_true parts.2
    have bounds : piece.1 <= address ∧ address < piece.1 + (piece.2 - piece.1) := covered
    exact ⟨same.symm, piece, parts.1, bounds.1, by show address < piece.2; omega⟩
  rintro ⟨rfl, piece, listed, lower, upper⟩
  have lower : piece.1 <= address := lower
  have upper : address < piece.2 := upper
  refine ⟨_, List.mem_map.mpr ⟨piece, List.mem_filter.mpr ⟨listed, decide_eq_true (by omega)⟩,
    rfl⟩, rfl, lower, ?_⟩
  show address < piece.1 + (piece.2 - piece.1)
  omega

theorem states_flatMap {T : Type} (items : List T) (spans : T -> List PageSpan) (address : Nat)
    (said : Bool) : States (items.flatMap spans) address said <->
      ∃ item ∈ items, States (spans item) address said := by
  constructor
  · rintro ⟨span, member, rest⟩
    rcases List.mem_flatMap.mp member with ⟨item, listed, own⟩
    exact ⟨item, listed, span, own, rest⟩
  · rintro ⟨item, listed, span, own, rest⟩
    exact ⟨span, List.mem_flatMap.mpr ⟨item, listed, own⟩, rest⟩

theorem states_nil (address : Nat) (said : Bool) : ¬ States [] address said := by
  rintro ⟨_, member, _⟩
  cases member

/-! ## Segments and their pages -/

/-- The segment touches the page, and its end can be rounded. -/
def LoadSegment.Marks (segment : LoadSegment) (address : Nat) : Prop :=
  segment.Touches address ∧ segment.virtualAddress + segment.memorySize <= wordLimit - page

variable {segment : LoadSegment} {whole : Nat × Nat}

theorem extent_eq_some (rounded : segment.extent = some whole) :
    whole.1 = floor segment.virtualAddress ∧
      whole.2 = floor (segment.virtualAddress + segment.memorySize + (page - 1)) ∧
      segment.virtualAddress + segment.memorySize <= wordLimit - page := by
  unfold LoadSegment.extent at rounded
  rcases Option.bind_eq_some_iff.mp rounded with ⟨stop, added, rest⟩
  rcases Option.map_eq_some_iff.mp rest with ⟨upper, raised, rfl⟩
  rcases Option.map_eq_some_iff.mp raised with ⟨total, summed, rfl⟩
  have first := checkedAdd_eq_some_iff.mp added
  have second := checkedAdd_eq_some_iff.mp summed
  rw [<- first.1] at second
  refine ⟨rfl, by rw [second.1], ?_⟩
  have size : page = 4096 := rfl
  have limit : wordLimit = 18446744073709551616 := rfl
  omega

theorem extent_isSome (fits : segment.virtualAddress + segment.memorySize <= wordLimit - page) :
    ∃ whole, segment.extent = some whole := by
  have size : page = 4096 := rfl
  have limit : wordLimit = 18446744073709551616 := rfl
  rw [LoadSegment.extent, checkedAdd_of_lt (by omega), Option.bind_some, ceil,
    checkedAdd_of_lt (by omega)]
  exact ⟨_, rfl⟩

variable {address : Nat}

theorem touches_pos (touches : segment.Touches address) :
    0 < segment.memorySize := by
  rcases touches with ⟨byte, _, lower, upper⟩
  omega

/-- The rounded extent of a nonempty segment holds the pages it touches. -/
theorem extent_iff (rounded : segment.extent = some whole) (nonempty : 0 < segment.memorySize)
    (address : Nat) :
    (whole.1 <= address ∧ address < whole.2) <-> segment.Marks address := by
  rcases extent_eq_some rounded with ⟨lower, upper, fits⟩
  have size : page = 4096 := rfl
  rw [lower, upper, floor, floor, LoadSegment.Marks, LoadSegment.Touches, size]
  constructor
  · intro bounds
    refine ⟨⟨max segment.virtualAddress (address - address % 4096), ?_, ?_, ?_⟩, size ▸ fits⟩ <;> omega
  · rintro ⟨⟨byte, same, above, below⟩, _⟩
    omega

/-- A segment of a kind marks the page of the address. -/
def LoadPlan.Marked (plan : LoadPlan) (kind : SegmentPerms -> Bool) (address : Nat) : Prop :=
  ∃ segment ∈ plan.segments, kind segment.perms = true ∧ segment.Marks address

theorem covers_extents (plan : LoadPlan) (kind : SegmentPerms -> Bool) (address : Nat) :
    Covers id ((plan.segments.filter fun segment =>
      kind segment.perms && decide (0 < segment.memorySize)).filterMap LoadSegment.extent) address <->
      plan.Marked kind address := by
  constructor
  · rintro ⟨whole, member, bounds⟩
    rcases List.mem_filterMap.mp member with ⟨segment, listed, rounded⟩
    have parts := List.mem_filter.mp listed
    rw [Bool.and_eq_true, decide_eq_true_iff] at parts
    exact ⟨segment, parts.1, parts.2.1, (extent_iff rounded parts.2.2 address).mp bounds⟩
  rintro ⟨segment, member, own, marks⟩
  rcases extent_isSome marks.2 with ⟨whole, rounded⟩
  have nonempty := touches_pos marks.1
  refine ⟨whole, List.mem_filterMap.mpr ⟨segment, List.mem_filter.mpr ⟨member, ?_⟩, rounded⟩,
    (extent_iff rounded nonempty address).mpr marks⟩
  rw [own, decide_eq_true nonempty]
  rfl

/-! ## The read-only spans -/

theorem states_unresolvedSpans (plan : LoadPlan) (address : Nat) (said : Bool) :
    States plan.unresolvedSpans address said <->
      (∃ segment ∈ plan.segments, segment.perms.write = false ∧
        segment.perms.read = true ∧ segment.perms.execute = said ∧ segment.Marks address) ∧
      ¬ plan.Marked SegmentPerms.write address := by
  unfold LoadPlan.unresolvedSpans
  rw [states_flatMap]
  constructor
  · rintro ⟨segment, member, stated⟩
    split_ifs at stated with skipped
    · exact absurd stated (states_nil _ _)
    simp only [not_or, Bool.not_eq_true, Bool.not_eq_false] at skipped
    cases rounded : segment.extent with
    | none =>
      rw [rounded] at stated
      exact absurd stated (states_nil _ _)
    | some whole =>
      rw [rounded] at stated
      have parts := (states_spansOf _ _ _ _).mp stated
      have cut := (covers_foldl_clip _ _ _).mp parts.2
      rw [covers_single, extent_iff rounded (Nat.pos_of_ne_zero skipped.2.2),
        LoadPlan.writableExtents, covers_extents] at cut
      exact ⟨⟨segment, member, skipped.1, skipped.2.1, parts.1.symm, cut.1⟩, cut.2⟩
  · rintro ⟨⟨segment, member, unwritable, readable, same, marks⟩, clear⟩
    have nonempty := touches_pos marks.1
    rcases extent_isSome marks.2 with ⟨whole, rounded⟩
    refine ⟨segment, member, ?_⟩
    rw [if_neg (by simp [unwritable, readable, Nat.ne_of_gt nonempty]), rounded]
    refine (states_spansOf _ _ _ _).mpr ⟨same.symm, (covers_foldl_clip _ _ _).mpr ?_⟩
    rw [covers_single, extent_iff rounded nonempty, LoadPlan.writableExtents, covers_extents]
    exact ⟨marks, clear⟩

theorem covers_execSpans (spans : List PageSpan) (address : Nat) :
    Covers id ((spans.filter PageSpan.exec).map fun span => (span.start, span.start + span.len))
      address <-> States spans address true := by
  constructor
  · rintro ⟨extent, member, bounds⟩
    rcases List.mem_map.mp member with ⟨span, listed, rfl⟩
    have parts := List.mem_filter.mp listed
    exact ⟨span, parts.1, parts.2, bounds⟩
  · rintro ⟨span, member, exec, covered⟩
    exact ⟨_, List.mem_map.mpr ⟨span, List.mem_filter.mpr ⟨member, exec⟩, rfl⟩, covered⟩

theorem states_roPageSpans (plan : LoadPlan) (address : Nat) (said : Bool) :
    States plan.roPageSpans address said <->
      States plan.unresolvedSpans address said ∧
        (said = false -> ¬ States plan.unresolvedSpans address true) := by
  unfold LoadPlan.roPageSpans
  dsimp only
  rw [states_flatMap]
  constructor
  · rintro ⟨span, member, stated⟩
    cases exec : span.exec with
    | true =>
      rw [if_pos exec] at stated
      rcases stated with ⟨own, listed, same, covered⟩
      rw [List.mem_singleton.mp listed] at same covered
      refine ⟨⟨span, member, same, covered⟩, ?_⟩
      intro wrong
      rw [<- same, exec] at wrong
      cases wrong
    | false =>
      rw [if_neg (by rw [exec]; nofun), states_spansOf, covers_foldl_clip, covers_single,
        covers_execSpans] at stated
      exact ⟨⟨span, member, exec.trans stated.1.symm, stated.2.1⟩, fun _ => stated.2.2⟩
  · rintro ⟨⟨span, member, same, covered⟩, clear⟩
    refine ⟨span, member, ?_⟩
    cases exec : span.exec with
    | true =>
      rw [if_pos rfl]
      exact ⟨span, List.mem_singleton.mpr rfl, same, covered⟩
    | false =>
      have plain : said = false := same.symm.trans exec
      rw [if_neg (by nofun), states_spansOf, covers_foldl_clip, covers_single, covers_execSpans]
      exact ⟨plain, covered, clear plain⟩

/-! ## The writable spans -/

variable {stop : Nat}

/-- From the cursor to the end every address is in a span, which is executable where
the sorted extents are. -/
theorem states_splitShared {cursor : Nat} {shared : List (Nat × Nat)} (bounded : cursor <= stop)
    (sorted : shared.Pairwise fun first second => first.1 <= second.1)
    (inside : ∀ extent ∈ shared, extent.1 <= extent.2 ∧ extent.2 <= stop)
    (address : Nat) (said : Bool) :
    States (LoadPlan.splitShared stop cursor shared) address said <->
      (cursor <= address ∧ address < stop) ∧ (said = true <-> Covers id shared address) := by
  have single : ∀ (start len : Nat) (exec : Bool),
      States [⟨start, len, exec⟩] address said <->
        exec = said ∧ start <= address ∧ address < start + len := by
    intro start len exec
    simp [States, PageSpan.Covers]
  have append : ∀ first second : List PageSpan,
      States (first ++ second) address said <-> States first address said ∨ States second address said := by
    intro first second
    simp only [States, List.mem_append, or_and_right, exists_or]
  induction shared generalizing cursor with
  | nil =>
    unfold LoadPlan.splitShared
    split_ifs with room
    · rw [single]
      cases said with
      | false =>
        simp
        omega
      | true => simp
    · simp only [states_nil, false_iff]
      omega
  | cons head rest ih =>
    rcases List.pairwise_cons.mp sorted with ⟨smallest, restSorted⟩
    have restInside := fun extent member => inside extent (List.mem_cons_of_mem _ member)
    have headInside := inside head List.mem_cons_self
    have later : Covers id rest address -> head.1 <= address := by
      rintro ⟨extent, member, bounds⟩
      exact Nat.le_trans (smallest extent member) bounds.1
    have front : States (if cursor < head.1 then [⟨cursor, head.1 - cursor, false⟩] else [])
        address said <-> said = false ∧ cursor <= address ∧ address < head.1 := by
      split_ifs
      · rw [single]
        cases said with
        | false =>
          simp
          omega
        | true => simp
      · simp only [states_nil, false_iff]
        omega
    have behind : States (if cursor < head.2 then
          ⟨max head.1 cursor, head.2 - max head.1 cursor, true⟩ ::
            LoadPlan.splitShared stop head.2 rest
        else LoadPlan.splitShared stop cursor rest) address said <->
        (said = true ∧ max head.1 cursor <= address ∧ address < head.2) ∨
          (max head.2 cursor <= address ∧ address < stop) ∧
            (said = true <-> Covers id rest address) := by
      split_ifs with reaches
      · have tail : States (LoadPlan.splitShared stop head.2 rest) address said <-> _ :=
          ih headInside.2 restSorted restInside
        rw [<- List.singleton_append, append, single, tail, Nat.max_eq_left (Nat.le_of_lt reaches)]
        refine or_congr ?_ Iff.rfl
        cases said with
        | false => simp
        | true =>
          simp
          omega
      have tail : States (LoadPlan.splitShared stop cursor rest) address said <-> _ :=
        ih bounded restSorted restInside
      rw [tail, Nat.max_eq_right (Nat.le_of_not_lt reaches)]
      refine (or_iff_right ?_).symm
      omega
    show States ((if cursor < head.1 then _ else []) ++ _) address said <-> _
    rw [append, front, behind, covers_cons]
    by_cases inRest : Covers id rest address
    · have order := later inRest
      cases said <;> simp [inRest] <;> omega
    · cases said <;> simp [inRest] <;> omega

theorem sorted_sharedWith (plan : LoadPlan) (start stop : Nat) :
    (plan.sharedWith start stop).Pairwise fun first second => first.1 <= second.1 := by
  refine (List.pairwise_mergeSort ?_ ?_ _).imp ?_
  · intro first second third before behind
    simp only [LoadPlan.pairOrder, Bool.or_eq_true, Bool.and_eq_true, decide_eq_true_iff,
      beq_iff_eq] at before behind ⊢
    omega
  · intro first second
    simp only [LoadPlan.pairOrder, Bool.or_eq_true, Bool.and_eq_true, decide_eq_true_iff,
      beq_iff_eq]
    omega
  · intro first second ordered
    simp only [LoadPlan.pairOrder, Bool.or_eq_true, Bool.and_eq_true, decide_eq_true_iff,
      beq_iff_eq] at ordered
    omega

variable {plan : LoadPlan}

theorem mem_sharedWith {start : Nat} {extent : Nat × Nat} :
    extent ∈ plan.sharedWith start stop <-> ∃ whole ∈ plan.execExtents,
      (whole.1 < stop ∧ start < whole.2) ∧ (max whole.1 start, min whole.2 stop) = extent := by
  rw [LoadPlan.sharedWith, List.mem_mergeSort, List.mem_map]
  simp only [List.mem_filter, Bool.and_eq_true, decide_eq_true_iff, and_assoc]

theorem covers_sharedWith {start : Nat} (inside : start <= address ∧ address < stop) :
    Covers id (plan.sharedWith start stop) address <-> plan.Marked SegmentPerms.execute address := by
  rw [<- covers_extents]
  constructor
  · rintro ⟨extent, member, bounds⟩
    rcases mem_sharedWith.mp member with ⟨whole, listed, _, rfl⟩
    have bounds : max whole.1 start <= address ∧ address < min whole.2 stop := bounds
    exact ⟨whole, listed, by show whole.1 <= address; omega, by show address < whole.2; omega⟩
  rintro ⟨whole, listed, bounds⟩
  have bounds : whole.1 <= address ∧ address < whole.2 := bounds
  refine ⟨_, mem_sharedWith.mpr ⟨whole, listed, by omega, rfl⟩, ?_⟩
  show max whole.1 start <= address ∧ address < min whole.2 stop
  omega

theorem extent_nonempty (rounded : segment.extent = some whole)
    (nonempty : 0 < segment.memorySize) :
    whole.1 < whole.2 := by
  rcases extent_eq_some rounded with ⟨lower, upper, _⟩
  have size : page = 4096 := rfl
  rw [lower, upper, floor, floor, size]
  omega

theorem states_rwPageSpans (plan : LoadPlan) (address : Nat) (said : Bool) :
    States plan.rwPageSpans address said <->
      plan.Marked SegmentPerms.write address ∧
        (said = true <-> plan.Marked SegmentPerms.execute address) := by
  have own : ∀ segment start stop, segment ∈ plan.segments ->
      segment.extent = some (start, stop) -> 0 < segment.memorySize ->
      (States (if segment.perms.execute then [⟨start, stop - start, true⟩]
        else LoadPlan.splitShared stop start (plan.sharedWith start stop)) address said <->
      segment.Marks address ∧ (said = true <-> plan.Marked SegmentPerms.execute address)) := by
    intro segment start stop member rounded nonempty
    have room := extent_nonempty rounded nonempty
    have marks := extent_iff rounded nonempty address
    cases exec : segment.perms.execute with
    | true =>
      rw [if_pos rfl, <- marks]
      have marked : start <= address ∧ address < stop -> plan.Marked SegmentPerms.execute address :=
        fun bounds => ⟨segment, member, exec, marks.mp bounds⟩
      constructor
      · rintro ⟨span, listed, same, covered⟩
        rw [List.mem_singleton.mp listed] at same covered
        have covered : start <= address ∧ address < start + (stop - start) := covered
        have bounds : start <= address ∧ address < stop := by omega
        exact ⟨bounds, fun _ => marked bounds, fun _ => same.symm⟩
      · rintro ⟨bounds, same⟩
        refine ⟨_, List.mem_singleton.mpr rfl, (same.mpr (marked bounds)).symm, bounds.1, ?_⟩
        show address < start + (stop - start)
        omega
    | false =>
      rw [if_neg (by nofun), states_splitShared (Nat.le_of_lt room) (sorted_sharedWith _ _ _),
        <- marks]
      · exact and_congr_right fun bounds => by rw [covers_sharedWith bounds]
      intro extent shared
      rcases mem_sharedWith.mp shared with ⟨whole, listed, meets, rfl⟩
      rcases List.mem_filterMap.mp listed with ⟨other, otherListed, otherRounded⟩
      have parts := (List.mem_filter.mp otherListed).2
      rw [Bool.and_eq_true, decide_eq_true_iff] at parts
      have wide := extent_nonempty otherRounded parts.2
      show max whole.1 start <= min whole.2 stop ∧ min whole.2 stop <= stop
      omega
  unfold LoadPlan.rwPageSpans
  rw [states_flatMap]
  constructor
  · rintro ⟨segment, member, stated⟩
    by_cases skipped : segment.perms.write = false ∨ segment.memorySize = 0
    · rw [if_pos skipped] at stated
      exact absurd stated (states_nil _ _)
    rw [if_neg skipped] at stated
    simp only [not_or, Bool.not_eq_false] at skipped
    cases rounded : segment.extent with
    | none =>
      rw [rounded] at stated
      exact absurd stated (states_nil _ _)
    | some whole =>
      rw [rounded] at stated
      have parts := (own segment _ _ member rounded (Nat.pos_of_ne_zero skipped.2)).mp stated
      exact ⟨⟨segment, member, skipped.1, parts.1⟩, parts.2⟩
  · rintro ⟨⟨segment, member, writable, marks⟩, same⟩
    have nonempty := touches_pos marks.1
    rcases extent_isSome marks.2 with ⟨whole, rounded⟩
    refine ⟨segment, member, ?_⟩
    rw [if_neg (by simp [show segment.perms.write = true from writable, Nat.ne_of_gt nonempty]),
      rounded]
    exact (own segment _ _ member rounded nonempty).mpr ⟨marks, same⟩

/-! ## Both together -/

theorem inSpans_iff (spans : List PageSpan) (address : Nat) :
    InSpans spans address <-> ∃ said, States spans address said := by
  constructor
  · rintro ⟨span, member, covered⟩
    exact ⟨span.exec, span, member, rfl, covered⟩
  · rintro ⟨_, span, member, _, covered⟩
    exact ⟨span, member, covered⟩

theorem inSpans_rw (plan : LoadPlan) (address : Nat) :
    InSpans plan.rwPageSpans address <-> plan.Marked SegmentPerms.write address := by
  rw [inSpans_iff]
  constructor
  · rintro ⟨said, stated⟩
    exact ((states_rwPageSpans plan address said).mp stated).1
  · intro marked
    by_cases exec : plan.Marked SegmentPerms.execute address
    · exact ⟨true, (states_rwPageSpans plan address true).mpr ⟨marked, by simp [exec]⟩⟩
    · exact ⟨false, (states_rwPageSpans plan address false).mpr ⟨marked, by simp [exec]⟩⟩

/-- A readable segment that is not writable. -/
def readOnly (perms : SegmentPerms) : Bool :=
  perms.read && !perms.write

theorem states_ro_true (plan : LoadPlan) (address : Nat) :
    States plan.roPageSpans address true <->
      plan.Marked (fun perms => readOnly perms && perms.execute) address ∧
        ¬ plan.Marked SegmentPerms.write address := by
  rw [states_roPageSpans, states_unresolvedSpans]
  simp only [LoadPlan.Marked, readOnly, Bool.and_eq_true, Bool.not_eq_true']
  constructor
  · rintro ⟨⟨⟨segment, member, unwritable, readable, exec, marks⟩, clear⟩, _⟩
    exact ⟨⟨segment, member, ⟨⟨readable, unwritable⟩, exec⟩, marks⟩, clear⟩
  · rintro ⟨⟨segment, member, ⟨⟨readable, unwritable⟩, exec⟩, marks⟩, clear⟩
    exact ⟨⟨⟨segment, member, unwritable, readable, exec, marks⟩, clear⟩, nofun⟩

theorem inSpans_ro (plan : LoadPlan) (address : Nat) :
    InSpans plan.roPageSpans address <->
      plan.Marked readOnly address ∧ ¬ plan.Marked SegmentPerms.write address := by
  rw [inSpans_iff]
  constructor
  · rintro ⟨said, stated⟩
    rw [states_roPageSpans, states_unresolvedSpans] at stated
    rcases stated with ⟨⟨⟨segment, member, unwritable, readable, _, marks⟩, clear⟩, _⟩
    exact ⟨⟨segment, member, by rw [readOnly, readable, unwritable]; rfl, marks⟩, clear⟩
  rintro ⟨⟨segment, member, kind, marks⟩, clear⟩
  rw [readOnly, Bool.and_eq_true, Bool.not_eq_true'] at kind
  by_cases exec : States plan.unresolvedSpans address true
  · exact ⟨true, (states_roPageSpans plan address true).mpr ⟨exec, nofun⟩⟩
  refine ⟨false, (states_roPageSpans plan address false).mpr ⟨?_, fun _ => exec⟩⟩
  refine (states_unresolvedSpans plan address false).mpr
    ⟨⟨segment, member, kind.2, kind.1, ?_, marks⟩, clear⟩
  cases own : segment.perms.execute with
  | false => rfl
  | true =>
    exact absurd ((states_unresolvedSpans plan address true).mpr
      ⟨⟨segment, member, kind.2, kind.1, own, marks⟩, clear⟩) exec

theorem Marked.mono {kind wider : SegmentPerms -> Bool} (marked : plan.Marked kind address)
    (implied : ∀ perms, kind perms = true -> wider perms = true) :
    plan.Touched wider address := by
  rcases marked with ⟨segment, member, own, marks⟩
  exact ⟨segment, member, implied _ own, marks.1⟩

theorem ends_of_whole
    (whole : ∀ address, plan.Touched (fun _ => true) address -> InSpans plan.roPageSpans
      address ∨ InSpans plan.rwPageSpans address) (member : segment ∈ plan.segments)
    (nonempty : 0 < segment.memorySize) :
    segment.virtualAddress + segment.memorySize <= wordLimit - page := by
  by_contra beyond
  have touches : segment.Touches (segment.virtualAddress + segment.memorySize - 1) :=
    ⟨_, rfl, by omega, by omega⟩
  have outside : ∀ kind,
      ¬ plan.Marked kind (segment.virtualAddress + segment.memorySize - 1) := by
    rintro kind ⟨other, _, _, ⟨byte, same, lower, upper⟩, fits⟩
    have size : page = 4096 := rfl
    have limit : wordLimit = 18446744073709551616 := rfl
    rw [size] at same
    omega
  rcases whole _ ⟨segment, member, rfl, touches⟩ with inRo | inRw
  · exact outside _ ((inSpans_ro plan _).mp inRo).1
  · exact outside _ ((inSpans_rw plan _).mp inRw)

theorem accounted_of_permissions (permissions : PagePermissions plan) :
    PagesAccounted plan := by
  refine ⟨fun segment member nonempty =>
    ends_of_whole (fun address => (permissions.whole address).mpr) member nonempty, ?_⟩
  intro segment member _ _ address touches
  rcases (permissions.whole address).mpr ⟨segment, member, rfl, touches⟩ with inRo | inRw
  · refine .inr ?_
    rcases inRo with ⟨span, listed, covered⟩
    cases exec : segment.perms.execute with
    | false =>
      refine Marked.mono ((inSpans_ro plan address).mp ⟨span, listed, covered⟩).1 ?_
      intro perms own
      rw [readOnly] at own
      rw [own]
      rfl
    | true =>
      have said := (permissions.executable address span (List.mem_append_left _ listed)
        covered).mpr ⟨segment, member, exec, touches⟩
      refine Marked.mono ((states_ro_true plan address).mp ⟨span, listed, said, covered⟩).1 ?_
      intro perms own
      simpa [readOnly] using own
  · exact .inl ((permissions.writable address).mp inRw)

theorem permissions_of_accounted (accounted : PagesAccounted plan) :
    PagePermissions plan := by
  have marked : ∀ kind address, plan.Touched kind address <-> plan.Marked kind address := by
    intro kind address
    refine ⟨?_, fun marked => Marked.mono marked (fun _ own => own)⟩
    rintro ⟨segment, member, own, touches⟩
    exact ⟨segment, member, own, touches, accounted.ends segment member (touches_pos touches)⟩
  have writable : ∀ address, InSpans plan.rwPageSpans address <->
      plan.Touched SegmentPerms.write address := by
    intro address
    rw [inSpans_rw, marked]
  refine ⟨?_, writable, ?_, ?_⟩
  · intro address
    rw [inSpans_ro, inSpans_rw, <- marked, <- marked]
    constructor
    · rintro (⟨⟨segment, member, _, touches⟩, _⟩ | ⟨segment, member, _, touches⟩) <;>
        exact ⟨segment, member, rfl, touches⟩
    rintro ⟨segment, member, _, touches⟩
    by_cases written : plan.Touched SegmentPerms.write address
    · exact .inr written
    refine .inl ⟨?_, written⟩
    have unwritable : segment.perms.write = false := by
      cases own : segment.perms.write with
      | false => rfl
      | true => exact absurd ⟨segment, member, own, touches⟩ written
    cases readable : segment.perms.read with
    | true => exact ⟨segment, member, by rw [readOnly, readable, unwritable]; rfl, touches⟩
    | false =>
      rcases accounted.shared segment member unwritable readable address touches with
        wrong | ⟨other, listed, kind, otherTouches⟩
      · exact absurd wrong written
      · rw [Bool.and_eq_true] at kind
        exact ⟨other, listed, kind.1, otherTouches⟩
  · intro address inRw inRo
    exact ((inSpans_ro plan address).mp inRo).2 ((inSpans_rw plan address).mp inRw)
  intro address span member covered
  rcases List.mem_append.mp member with inRo | inRw
  · have clear := ((inSpans_ro plan address).mp ⟨span, inRo, covered⟩).2
    constructor
    · intro said
      refine Marked.mono ((states_ro_true plan address).mp ⟨span, inRo, said, covered⟩).1 ?_
      intro perms own
      exact (Bool.and_eq_true _ _ ▸ own).2
    rintro ⟨segment, listed, exec, touches⟩
    have readable : plan.Marked (fun perms => readOnly perms && perms.execute) address := by
      rw [<- marked] at clear ⊢
      have unwritable : segment.perms.write = false := by
        cases own : segment.perms.write with
        | false => rfl
        | true => exact absurd ⟨segment, listed, own, touches⟩ clear
      cases read : segment.perms.read with
      | true =>
        exact ⟨segment, listed, by simp [readOnly, read, unwritable,
          show segment.perms.execute = true from exec], touches⟩
      | false =>
        rcases accounted.shared segment listed unwritable read address touches with
          wrong | ⟨other, otherListed, kind, otherTouches⟩
        · exact absurd wrong clear
        · rw [show segment.perms.execute = true from exec] at kind
          exact ⟨other, otherListed, kind, otherTouches⟩
    cases said : span.exec with
    | true => rfl
    | false =>
      have hidden := ((states_roPageSpans plan address false).mp
        ⟨span, inRo, said, covered⟩).2 rfl
      have shown := (states_ro_true plan address).mpr ⟨readable, clear⟩
      exact absurd ((states_roPageSpans plan address true).mp shown).1 hidden
  · have stated := (states_rwPageSpans plan address span.exec).mp ⟨span, inRw, rfl, covered⟩
    rw [stated.2, marked]

/-- The spans give every page its permissions exactly where no segment reaches
the last page of the address space and no page is left to segments that can be
neither read nor written. -/
theorem page_permissions_iff (plan : LoadPlan)
    (_ends : ∀ segment ∈ plan.segments,
      segment.virtualAddress + segment.memorySize < wordLimit) :
    PagePermissions plan <-> PagesAccounted plan :=
  ⟨accounted_of_permissions, permissions_of_accounted⟩

/-- Text and data that share a page. -/
def sharedPagePlan : LoadPlan where
  segments := [⟨4096, 5000, ⟨true, false, true⟩⟩, ⟨9200, 100, ⟨true, true, false⟩⟩]

theorem page_permissions_iff_sharedPage :
    (PagePermissions sharedPagePlan <-> PagesAccounted sharedPagePlan) ∧
      sharedPagePlan.rwPageSpans = [⟨8192, 4096, true⟩] ∧
      sharedPagePlan.roPageSpans = [⟨4096, 4096, true⟩] :=
  ⟨page_permissions_iff sharedPagePlan (by decide), by decide +kernel, by decide +kernel⟩

/-- One segment that may only be executed. -/
def executeOnlyPlan : LoadPlan where
  segments := [⟨4096, 4096, ⟨false, false, true⟩⟩]

/-- An execute-only page is in no span. -/
theorem execute_only_page_uncovered :
    (∀ segment ∈ executeOnlyPlan.segments,
      segment.virtualAddress + segment.memorySize < wordLimit) ∧
    executeOnlyPlan.roPageSpans = [] ∧ executeOnlyPlan.rwPageSpans = [] ∧
    executeOnlyPlan.Touched (fun _ => true) 4096 ∧ ¬ PagePermissions executeOnlyPlan := by
  have touched : executeOnlyPlan.Touched (fun _ => true) 4096 :=
    ⟨_, List.mem_cons_self, rfl, 4096, rfl, le_rfl, by decide⟩
  have none : executeOnlyPlan.roPageSpans = [] ∧ executeOnlyPlan.rwPageSpans = [] :=
    ⟨rfl, rfl⟩
  refine ⟨by decide, none.1, none.2, touched, ?_⟩
  intro permissions
  rcases (permissions.whole 4096).mpr touched with ⟨_, member, _⟩ | ⟨_, member, _⟩
  · rw [none.1] at member
    cases member
  · rw [none.2] at member
    cases member

end Elf
end Carrick
