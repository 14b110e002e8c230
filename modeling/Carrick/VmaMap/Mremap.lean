import Carrick.VmaMap.Edits

namespace Carrick
namespace VmaMap

open Foundation

/-!
# Attributes of a moved mapping

A move captures the rows of its source, clipped to it, and projects them to
the destination: cut off where the destination is shorter, and with the last
row extended where it is longer.
-/

structure MremapForkSemantics where
  sourceStart : Nat
  sourceEnd : Nat
  vmas : Rows

/-- The rounds of a capture: where the rows end that follow without a hole, and
what is captured of them. -/
def captureFrom (sourceStart sourceEnd : Nat) : Nat -> Rows -> Option (Nat × Rows)
  | cursor, [] => some (cursor, [])
  | cursor, vma :: rest =>
    let start := max vma.start sourceStart
    let stop := min vma.stop sourceEnd
    if start ≠ cursor ∨ stop <= start then none
    else do
      let attributes ← vma.attributes.offsetBy (start - vma.start)
      let (last, captured) ← captureFrom sourceStart sourceEnd stop rest
      some (last, ⟨start, stop, attributes⟩ :: captured)

def capture (vmas : Rows) (sourceStart sourceLen : Nat) : Option MremapForkSemantics := do
  let sourceEnd ← checkedAdd sourceStart sourceLen
  let (cursor, captured) ← captureFrom sourceStart sourceEnd sourceStart
    (vmas.filter fun vma => decide (vma.start < sourceEnd) && decide (sourceStart < vma.stop))
  if cursor = sourceEnd ∧ captured ≠ [] then some ⟨sourceStart, sourceEnd, captured⟩ else none

/-- The rounds of a projection, up to the end of what is copied. -/
def projectRows (sourceStart copiedEnd destinationStart : Nat) : Rows -> Option Rows
  | [] => some []
  | vma :: rest =>
    let start := max vma.start sourceStart
    let stop := min vma.stop copiedEnd
    if stop <= start then some []
    else do
      let movedStart ← checkedAdd destinationStart (start - sourceStart)
      let movedStop ← checkedAdd destinationStart (stop - sourceStart)
      let attributes ← vma.attributes.offsetBy (start - vma.start)
      let moved ← projectRows sourceStart copiedEnd destinationStart rest
      some (⟨movedStart, movedStop, attributes⟩ :: moved)

def setLastEnd (stop : Nat) : Rows -> Option Rows
  | [] => none
  | [last] => some [{ last with stop := stop }]
  | row :: next :: rest => (setLastEnd stop (next :: rest)).map (List.cons row)

def MremapForkSemantics.project (semantics : MremapForkSemantics) (destinationStart newLen : Nat) :
    Option Rows := do
  let destinationEnd ← checkedAdd destinationStart newLen
  let sourceLen ← checkedSub semantics.sourceEnd semantics.sourceStart
  let copiedEnd ← checkedAdd semantics.sourceStart (min sourceLen newLen)
  let projected ← projectRows semantics.sourceStart copiedEnd destinationStart semantics.vmas
  if sourceLen < newLen then setLastEnd destinationEnd projected
  else if projected = [] then none else some projected

/-! ## Rows without holes -/

/-- Rows one behind the other from an address to another. -/
def Tiled : Nat -> Rows -> Nat -> Prop
  | start, [], stop => start = stop
  | start, row :: rest, stop => row.start = start ∧ row.start < row.stop ∧ Tiled row.stop rest stop

variable {rows : Rows} {start stop : Nat}

theorem Tiled.within (tiled : Tiled start rows stop) :
    start <= stop ∧ ∀ row ∈ rows, start <= row.start ∧ row.start < row.stop ∧ row.stop <= stop := by
  induction rows generalizing start with
  | nil => exact ⟨Nat.le_of_eq tiled, List.forall_mem_nil _⟩
  | cons head rest ih =>
    rcases tiled with ⟨starts, filled, others⟩
    rcases ih others with ⟨order, inside⟩
    refine ⟨by omega, fun row member => ?_⟩
    rcases List.mem_cons.mp member with rfl | later
    · exact ⟨by omega, filled, order⟩
    · have bounds := inside row later
      omega

theorem Tiled.ordered (tiled : Tiled start rows stop) : Ordered kit.bounds rows := by
  induction rows generalizing start with
  | nil => exact Ordered.nil
  | cons head rest ih =>
    exact Ordered.cons_iff.mpr ⟨tiled.2.1, fun row member => (tiled.2.2.within.2 row member).1,
      ih tiled.2.2⟩

theorem Tiled.covered (tiled : Tiled start rows stop) {address : Nat} (above : start <= address)
    (below : address < stop) : ∃ row ∈ rows, row.start <= address ∧ address < row.stop := by
  induction rows generalizing start with
  | nil =>
    have same : start = stop := tiled
    omega
  | cons head rest ih =>
    by_cases here : address < head.stop
    · exact ⟨head, List.mem_cons_self, tiled.1 ▸ above, here⟩
    · rcases ih tiled.2.2 (Nat.le_of_not_lt here) with ⟨row, member, inside⟩
      exact ⟨row, List.mem_cons_of_mem _ member, inside⟩

theorem meaning_of_mem (ordered : Ordered kit.bounds rows) {row : SemanticVma} (member : row ∈ rows)
    {address : Nat} (lower : row.start <= address) (upper : address < row.stop) :
    meaning rows address = some (row.attributesAt address) := by
  induction rows with
  | nil => cases member
  | cons head rest ih =>
    have parts := Ordered.cons_iff.mp ordered
    change (if head.start <= address ∧ address < head.stop then some _ else meaning rest address) = _
    rcases List.mem_cons.mp member with rfl | later
    · exact if_pos ⟨lower, upper⟩
    · have gap : head.stop <= row.start := parts.2.1 row later
      rw [if_neg (by omega)]
      exact ih parts.2.2 later

/-! ## Capturing the source -/

/-- Sorted and disjoint rows that start on pages and whose pages all have an
offset in the word. -/
structure WellFormed (rows : Rows) : Prop where
  ordered : Ordered kit.bounds rows
  aligned : ∀ row ∈ rows, pageSize ∣ row.start
  words : ∀ row ∈ rows, row.stop < wordLimit
  offsets : ∀ row ∈ rows, ∀ base, row.attributes.filePageOffset = some base ->
    base + (row.stop - row.start) / pageSize < wordLimit

theorem WellFormed.sublist {shorter : Rows} (formed : WellFormed rows) (kept : shorter.Sublist rows) :
    WellFormed shorter :=
  ⟨formed.ordered.sublist kept, fun row member => formed.aligned row (kept.subset member),
    fun row member => formed.words row (kept.subset member),
    fun row member => formed.offsets row (kept.subset member)⟩

/-- The part of a row inside a range, with the file page offset moved by as many
pages as were cut off below. -/
structure Clipped (low high : Nat) (row piece : SemanticVma) : Prop where
  start_eq : piece.start = max row.start low
  stop_eq : piece.stop = min row.stop high
  attributes_eq : row.attributes.offsetBy (piece.start - row.start) = some piece.attributes

variable {low high cursor : Nat}

theorem captureFrom_some {last : Nat} {captured : Rows}
    (computed : captureFrom low high cursor rows = some (last, captured)) :
    Tiled cursor captured last ∧ ∀ piece ∈ captured,
      ∃ row ∈ rows, Clipped low high row piece := by
  induction rows generalizing cursor captured with
  | nil =>
    cases computed
    exact ⟨rfl, List.forall_mem_nil _⟩
  | cons vma rest ih =>
    unfold captureFrom at computed
    dsimp only at computed
    split_ifs at computed with hole
    rcases Option.bind_eq_some_iff.mp computed with ⟨attributes, moved, collects⟩
    rcases Option.bind_eq_some_iff.mp collects with ⟨⟨_, others⟩, collected, same⟩
    cases same
    rcases ih collected with ⟨tiled, clipped⟩
    rw [not_or, not_not, Nat.not_le] at hole
    refine ⟨⟨hole.1, hole.2, tiled⟩, fun piece member => ?_⟩
    rcases List.mem_cons.mp member with rfl | later
    · exact ⟨vma, List.mem_cons_self, rfl, rfl, moved⟩
    · rcases clipped piece later with ⟨row, inRest, clip⟩
      exact ⟨row, List.mem_cons_of_mem _ inRest, clip⟩

/-- A capture goes through when the rows from the cursor on leave no hole. -/
theorem captureFrom_covered (formed : WellFormed rows) (filled : low < high)
    (meets : ∀ row ∈ rows, row.start < high ∧ low < row.stop)
    (ahead : ∀ row ∈ rows, cursor <= max row.start low)
    (inside : low <= cursor ∧ cursor <= high)
    (covered : ∀ address, cursor <= address -> address < high ->
      ∃ row ∈ rows, row.start <= address ∧ address < row.stop) :
    ∃ captured, captureFrom low high cursor rows = some (high, captured) := by
  induction rows generalizing cursor with
  | nil =>
    have ends : cursor = high := by
      by_contra short
      rcases covered cursor le_rfl (by omega) with ⟨_, impossible, _⟩
      cases impossible
    exact ⟨[], by rw [<- ends]; rfl⟩
  | cons vma rest ih =>
    have parts := Ordered.cons_iff.mp formed.ordered
    have meetsVma := meets vma List.mem_cons_self
    have aheadVma := ahead vma List.mem_cons_self
    have order : vma.start < vma.stop := parts.1
    have starts : max vma.start low = cursor := by
      rcases covered cursor le_rfl (by omega) with ⟨row, member, lower, upper⟩
      rcases List.mem_cons.mp member with rfl | later
      · omega
      · have gap : vma.stop <= row.start := parts.2.1 row later
        omega
    cases moved : vma.attributes.offsetBy (max vma.start low - vma.start) with
    | none =>
      rcases offsetBy_eq_none_iff.mp moved with ⟨base, has, overflows⟩
      have fits := formed.offsets vma List.mem_cons_self base has
      have less : (max vma.start low - vma.start) / pageSize <=
          (vma.stop - vma.start) / pageSize := Nat.div_le_div_right (by omega)
      omega
    | some attributes =>
      have behind : ∀ row ∈ rest, vma.stop <= row.start := parts.2.1
      rcases @ih (min vma.stop high) (formed.sublist (List.sublist_cons_self _ _))
        (fun row member => meets row (List.mem_cons_of_mem _ member))
        (fun row member => by
          have gap := behind row member
          omega)
        (by omega)
        (fun address lower upper => by
          rcases covered address (by omega) upper with ⟨row, member, bounds⟩
          rcases List.mem_cons.mp member with rfl | later
          · omega
          · exact ⟨row, later, bounds⟩) with ⟨captured, collected⟩
      refine ⟨⟨max vma.start low, min vma.stop high, attributes⟩ :: captured, ?_⟩
      unfold captureFrom
      dsimp only
      rw [if_neg (by omega), moved, Option.bind_eq_bind, Option.bind_some, collected]
      rfl

variable {vmas : Rows} {len : Nat}

theorem capture_some {semantics : MremapForkSemantics}
    (captured : capture vmas low len = some semantics) :
    semantics.sourceStart = low ∧ semantics.sourceEnd = low + len ∧
      0 < len ∧ low + len < wordLimit ∧
      Tiled low semantics.vmas (low + len) ∧
      ∀ piece ∈ semantics.vmas,
        ∃ row ∈ vmas, Clipped low (low + len) row piece := by
  rcases Option.bind_eq_some_iff.mp captured with ⟨high, added, collects⟩
  rcases checkedAdd_eq_some_iff.mp added with ⟨rfl, word⟩
  rcases Option.bind_eq_some_iff.mp collects with ⟨⟨cursor, pieces⟩, collected, finishes⟩
  dsimp only at finishes
  split_ifs at finishes with whole
  cases finishes
  rcases captureFrom_some collected with ⟨tiled, clipped⟩
  rw [whole.1] at tiled
  refine ⟨rfl, rfl, ?_, word, tiled, fun piece member => ?_⟩
  · rcases List.exists_mem_of_ne_nil pieces whole.2 with ⟨piece, member⟩
    have bounds := tiled.within.2 piece member
    omega
  · rcases clipped piece member with ⟨row, inRows, clip⟩
    exact ⟨row, (List.mem_filter.mp inRows).1, clip⟩

/-- A capture succeeds exactly on a range that is not empty and has no hole. -/
theorem capture_isSome_iff (formed : WellFormed vmas) :
    (capture vmas low len).isSome = true <->
      0 < len ∧ ∀ address, low <= address -> address < low + len ->
        ∃ row ∈ vmas, row.start <= address ∧ address < row.stop := by
  constructor
  · intro succeeds
    rcases Option.isSome_iff_exists.mp succeeds with ⟨semantics, captured⟩
    rcases capture_some captured with ⟨_, _, positive, _, tiled, clipped⟩
    refine ⟨positive, fun address lower upper => ?_⟩
    rcases tiled.covered lower upper with ⟨piece, member, above, below⟩
    rcases clipped piece member with ⟨row, inRows, clip⟩
    have starts := clip.start_eq
    have stops := clip.stop_eq
    exact ⟨row, inRows, by omega, by omega⟩
  rintro ⟨positive, covered⟩
  rcases covered (low + len - 1) (by omega) (by omega) with ⟨last, inRows, _, past⟩
  have word := formed.words last inRows
  have test : ∀ row, row ∈ vmas.filter (fun vma =>
      decide (vma.start < low + len) && decide (low < vma.stop)) <->
      row ∈ vmas ∧ row.start < low + len ∧ low < row.stop := by
    simp
  rcases @captureFrom_covered _ low (low + len) low
    (formed.sublist List.filter_sublist)
    (by omega) (fun row member => ((test row).mp member).2) (fun row _ => Nat.le_max_right _ _)
    (by omega) (fun address lower upper => by
      rcases covered address lower upper with ⟨row, member, bounds⟩
      exact ⟨row, (test row).mpr ⟨member, by omega, by omega⟩, bounds⟩) with ⟨captured, collected⟩
  have tiled := (captureFrom_some collected).1
  have some : captured ≠ [] := by
    rintro rfl
    have same : low = low + len := tiled
    omega
  unfold capture
  rw [checkedAdd_of_lt (by omega), Option.bind_eq_bind, Option.bind_some, collected]
  exact congrArg Option.isSome (if_pos ⟨rfl, some⟩)

/-! ## Projecting to the destination -/

variable {copied dest : Nat}

theorem projectRows_spec (tiled : Tiled cursor rows stop) (above : low <= cursor)
    (order : low <= copied) (inside : copied <= stop)
    (room : dest + (copied - low) < wordLimit)
    (words : ∀ row ∈ rows, ∀ offset, row.attributes.filePageOffset = some offset ->
      offset < wordLimit) :
    ∃ moved, projectRows low copied dest rows = some moved ∧
      Tiled (dest + (min cursor copied - low)) moved
        (dest + (copied - low)) ∧
      ∀ row ∈ moved, ∃ piece ∈ rows, row =
        ⟨dest + (piece.start - low),
          dest + (min piece.stop copied - low), piece.attributes⟩ := by
  induction rows generalizing cursor with
  | nil =>
    have same : cursor = stop := tiled
    refine ⟨[], rfl, ?_, List.forall_mem_nil _⟩
    rw [Nat.min_eq_right (by omega)]
    rfl
  | cons vma rest ih =>
    rcases tiled with ⟨starts, filled, others⟩
    unfold projectRows
    dsimp only
    rw [Nat.max_eq_left (by omega)]
    by_cases ends : min vma.stop copied <= vma.start
    · rw [if_pos ends]
      refine ⟨[], rfl, ?_, List.forall_mem_nil _⟩
      rw [Nat.min_eq_right (by omega)]
      rfl
    have same : vma.attributes.offsetBy (vma.start - vma.start) = some vma.attributes := by
      unfold VmaAttributes.offsetBy
      rw [Nat.sub_self]
      cases has : vma.attributes.filePageOffset with
      | none => rfl
      | some offset =>
        dsimp only
        rw [Nat.zero_div, checkedAdd_of_lt (words vma List.mem_cons_self offset has), Nat.add_zero,
          Option.map_some, <- has]
        rfl
    rcases ih others (by omega) (fun row member => words row (List.mem_cons_of_mem _ member)) with
      ⟨moved, projected, tiledMoved, shifted⟩
    rw [if_neg ends, checkedAdd_of_lt (by omega), checkedAdd_of_lt (by omega), same, projected]
    refine ⟨_, rfl, ⟨?_, ?_, tiledMoved⟩, fun row member => ?_⟩
    · change dest + (vma.start - low) = _
      rw [starts, Nat.min_eq_left (by omega)]
    · change dest + (vma.start - low) < dest + _
      omega
    · rcases List.mem_cons.mp member with rfl | later
      · exact ⟨vma, List.mem_cons_self, rfl⟩
      · rcases shifted row later with ⟨piece, inRest, shift⟩
        exact ⟨piece, List.mem_cons_of_mem _ inRest, shift⟩

theorem setLastEnd_spec {last : Nat} (tiled : Tiled start rows stop) (filled : start < stop)
    (grows : stop <= last) :
    ∃ grown, setLastEnd last rows = some grown ∧ Tiled start grown last ∧
      ∀ row ∈ grown, ∃ earlier ∈ rows,
        (row = earlier ∨ earlier.stop = stop ∧ row = { earlier with stop := last }) := by
  induction rows generalizing start with
  | nil =>
    have same : start = stop := tiled
    omega
  | cons head rest ih =>
    rcases tiled with ⟨starts, order, others⟩
    cases rest with
    | nil =>
      have ends : head.stop = stop := others
      refine ⟨_, rfl, ⟨starts, Nat.lt_of_lt_of_le order (ends ▸ grows), rfl⟩, fun row member => ?_⟩
      exact ⟨head, List.mem_cons_self, .inr ⟨ends, List.mem_singleton.mp member⟩⟩
    | cons next later =>
      have bounds := others.within.2 next List.mem_cons_self
      rcases ih others (by omega) with ⟨grown, extended, tiledGrown, kept⟩
      refine ⟨head :: grown, ?_, ⟨starts, order, tiledGrown⟩, fun row member => ?_⟩
      · unfold setLastEnd
        rw [extended]
        rfl
      · rcases List.mem_cons.mp member with rfl | inGrown
        · exact ⟨row, List.mem_cons_self, .inl rfl⟩
        · rcases kept row inGrown with ⟨earlier, inRest, which⟩
          exact ⟨earlier, List.mem_cons_of_mem _ inRest, which⟩

/-- A projection covers the destination with rows of the capture, of which the
last may be extended. -/
theorem project_spec {semantics : MremapForkSemantics} {newLen : Nat}
    (captured : capture vmas low len = some semantics) (positive : 0 < newLen)
    (room : dest + newLen < wordLimit) :
    ∃ moved, semantics.project dest newLen = some moved ∧
      Tiled dest moved (dest + newLen) ∧
      ∀ row ∈ moved, ∃ piece ∈ semantics.vmas,
        row.start = dest + (piece.start - low) ∧
        row.attributes = piece.attributes ∧
        (row.stop <= dest + (piece.stop - low) ∨
          piece.stop = low + len) := by
  rcases capture_some captured with ⟨starts, ends, filled, word, tiled, clipped⟩
  rcases @projectRows_spec _ _ low low (low + min len newLen)
    dest tiled le_rfl (by omega) (by omega) (by omega)
    (fun piece member offset has => by
      rcases clipped piece member with ⟨row, _, clip⟩
      exact (offsetBy_eq_some clip.attributes_eq).2 offset has) with
    ⟨moved, projected, tiledMoved, shifted⟩
  rw [Nat.min_eq_left (by omega), Nat.sub_self, Nat.add_zero, Nat.add_sub_cancel_left] at tiledMoved
  have sub : checkedSub (low + len) low = some len :=
    checkedSub_eq_some_iff.mpr (by omega)
  unfold MremapForkSemantics.project
  simp only [starts, ends, sub, checkedAdd_of_lt room, Option.bind_eq_bind, Option.bind_some,
    @checkedAdd_of_lt low (min len newLen) (by omega), projected]
  by_cases grows : len < newLen
  · rw [Nat.min_eq_left (Nat.le_of_lt grows)] at tiledMoved shifted
    rcases setLastEnd_spec tiledMoved (by omega) (by omega : _ <= dest + newLen) with
      ⟨grown, extended, tiledGrown, kept⟩
    rw [if_pos grows, extended]
    refine ⟨grown, rfl, tiledGrown, fun row member => ?_⟩
    rcases kept row member with ⟨earlier, inMoved, which⟩
    rcases shifted earlier inMoved with ⟨piece, inPieces, rfl⟩
    have bounds := tiled.within.2 piece inPieces
    rcases which with rfl | ⟨atEnd, rfl⟩
    · refine ⟨piece, inPieces, rfl, rfl, .inl ?_⟩
      dsimp only
      omega
    · refine ⟨piece, inPieces, rfl, rfl, .inr ?_⟩
      dsimp only at atEnd
      omega
  · rw [if_neg grows]
    have some : moved ≠ [] := by
      rintro rfl
      have same : dest = dest + min len newLen := tiledMoved
      omega
    rw [if_neg some]
    rw [Nat.min_eq_right (Nat.le_of_not_lt grows)] at tiledMoved shifted
    refine ⟨moved, rfl, tiledMoved, fun row member => ?_⟩
    rcases shifted row member with ⟨piece, inPieces, rfl⟩
    refine ⟨piece, inPieces, rfl, rfl, .inl ?_⟩
    dsimp only
    omega

/-- A move keeps the attributes of every page, and the pages it adds continue
the last row. -/
theorem mremap_carries_attributes (formed : WellFormed vmas) (low len : Nat) :
    ((capture vmas low len).isSome = true <->
      0 < len ∧ ∀ address, low <= address -> address < low + len ->
        meaning vmas address ≠ none) ∧
    ∀ semantics, capture vmas low len = some semantics ->
      pageSize ∣ low -> ∀ dest newLen, 0 < newLen ->
      dest + newLen < wordLimit ->
      ∃ moved, semantics.project dest newLen = some moved ∧
        Tiled dest moved (dest + newLen) ∧
        (∀ x, x < min len newLen ->
          meaning moved (dest + x) = meaning vmas (low + x)) ∧
        ∀ x, len <= x -> x < newLen -> ∃ last ∈ vmas,
          last.start < low + len ∧ low + len <= last.stop ∧
          meaning moved (dest + x) = some (last.attributesAt (low + x)) := by
  have mapped : ∀ address, meaning vmas address ≠ none <->
      ∃ row ∈ vmas, row.start <= address ∧ address < row.stop := fun _ =>
    Joining.covered_iff_meaning
  refine ⟨?_, fun semantics captured aligned dest newLen positive room => ?_⟩
  · simp only [mapped]
    exact capture_isSome_iff formed
  rcases capture_some captured with ⟨_, _, _, _, tiled, clipped⟩
  rcases project_spec captured positive room with ⟨moved, projected, tiledMoved, shifted⟩
  -- the row over an offset of the destination comes from a row of the source
  have origin : ∀ x, x < newLen -> ∃ row ∈ vmas, row.start <= low + x ∧
      row.start < low + len ∧
      (low + x < row.stop ∨ low + len <= row.stop) ∧
      meaning moved (dest + x) = some (row.attributesAt (low + x)) := by
    intro x below
    rcases tiledMoved.covered (Nat.le_add_right _ x) (by omega) with ⟨row, inMoved, lower, upper⟩
    rcases shifted row inMoved with ⟨piece, inPieces, starts, attributes, stops⟩
    rcases clipped piece inPieces with ⟨source, inRows, clip⟩
    have clipStart := clip.start_eq
    have clipStop := clip.stop_eq
    have bounds := tiled.within.2 piece inPieces
    refine ⟨source, inRows, by omega, by omega, by omega, ?_⟩
    have pieceAligned : pageSize ∣ piece.start := by
      rcases Nat.le_total source.start low with before | behind
      · rw [clipStart, Nat.max_eq_right before]
        exact aligned
      · rw [clipStart, Nat.max_eq_left behind]
        exact formed.aligned source inRows
    have pages := div_sub_of_dvd (formed.aligned source inRows) pieceAligned
      (by omega) (by omega : piece.start <= low + x)
    have offset : dest + x - row.start = low + x - piece.start := by omega
    rw [meaning_of_mem tiledMoved.ordered inMoved lower upper]
    unfold SemanticVma.attributesAt
    rw [attributes, (offsetBy_eq_some clip.attributes_eq).1, offset, pages]
    cases source.attributes.filePageOffset with
    | none => rfl
    | some base => simp [Nat.add_assoc]
  refine ⟨moved, projected, tiledMoved, fun x below => ?_, fun x above below => ?_⟩
  · rcases origin x (by omega) with ⟨row, inRows, lower, _, upper, means⟩
    rw [means, meaning_of_mem formed.ordered inRows lower (by omega)]
  · rcases origin x below with ⟨row, inRows, _, lower, upper, means⟩
    exact ⟨row, inRows, lower, by omega, means⟩

/-- Two heap pages and two pages of a file, from its sixth page on. -/
def heapAndFile : Rows :=
  [⟨0, 8192, heapAttributes⟩,
    ⟨8192, 16384, { heapAttributes with
      provenance := .privateFile, path := "/lib/libc.so", filePageOffset := some 5 }⟩]

/-- The last three of these pages are moved and grow by one: each keeps its page of the
file, and the new page is the next one. -/
theorem moved_pages_grow :
    ∃ semantics moved, capture heapAndFile 4096 12288 = some semantics ∧
      semantics.project 65536 16384 = some moved ∧ Tiled 65536 moved 81920 ∧
      meaning moved 65536 = some heapAttributes ∧
      (meaning moved 73728).bind VmaAttributes.filePageOffset = some 6 ∧
      (meaning moved 77824).bind VmaAttributes.filePageOffset = some 7 := by
  have formed : WellFormed heapAndFile :=
    ⟨⟨by decide, by decide⟩, by decide, by decide +kernel, by decide +kernel⟩
  rcases (mremap_carries_attributes formed 4096 12288).2 _ rfl (by decide) 65536 16384 (by decide)
    (by decide +kernel) with ⟨moved, projected, tiled, carried, grown⟩
  refine ⟨_, moved, rfl, projected, tiled, ?_, ?_, ?_⟩
  · exact (carried 0 (by decide)).trans (by decide +kernel)
  · rw [carried 8192 (by decide)]
    decide +kernel
  obtain ⟨last, listed, starts, stops, means⟩ := grown 12288 (by decide) (by decide)
  rw [means]
  rcases List.mem_pair.mp listed with rfl | rfl
  · exact absurd stops (by decide)
  · rfl

end VmaMap
end Carrick
