import Carrick.VmaMap.Rows

namespace Carrick
namespace VmaMap

open Foundation

/-!
# What the rows mean

The map is a finite map from addresses to attributes, where the file page
offset of an address is that of its row advanced to its page.  Rows on page
boundaries join exactly as the general theory of coalesced rows asks, so that
the local joins of an edit keep the whole vector coalesced.
-/

/-- The attributes of an address in a row. -/
def SemanticVma.attributesAt (row : SemanticVma) (address : Nat) : VmaAttributes :=
  row.attributes.withOffset
    (row.attributes.filePageOffset.map (fun offset => offset + (address - row.start) / pageSize))

/-- A nonempty range of whole pages with a file page offset that is a word. -/
structure SemanticVma.Paged (row : SemanticVma) : Prop where
  ordered : row.start < row.stop
  start_aligned : pageSize ∣ row.start
  stop_aligned : pageSize ∣ row.stop
  offset_word : ∀ offset, row.attributes.filePageOffset = some offset -> offset < wordLimit

/-! ## Page arithmetic -/

theorem div_sub_of_dvd {low middle address : Nat} (lowAligned : pageSize ∣ low)
    (middleAligned : pageSize ∣ middle) (order : low <= middle) (above : middle <= address) :
    (address - low) / pageSize = (middle - low) / pageSize + (address - middle) / pageSize := by
  rcases Nat.dvd_sub middleAligned lowAligned with ⟨pages, whole⟩
  have split : address - low = pageSize * pages + (address - middle) := by omega
  have positive : 0 < pageSize := by decide
  rw [split, whole, Nat.mul_add_div positive, Nat.mul_div_cancel_left _ positive]

/-! ## Attributes of parts -/

@[simp] theorem withOffset_withOffset (attributes : VmaAttributes) (first second : Option Nat) :
    (attributes.withOffset first).withOffset second = attributes.withOffset second := rfl

@[simp] theorem withOffset_filePageOffset (attributes : VmaAttributes) (offset : Option Nat) :
    (attributes.withOffset offset).filePageOffset = offset := rfl

theorem canMergeWith_iff {first second : VmaAttributes} {length : Nat} :
    first.canMergeWith second length = true <->
      VmaAttributes.offsetContiguous first.filePageOffset second.filePageOffset length = true ∧
        first = second.withOffset first.filePageOffset := by
  unfold VmaAttributes.canMergeWith
  rw [Bool.and_eq_true, decide_eq_true_eq]

theorem offsetContiguous_iff {first second : Option Nat} {length : Nat} :
    VmaAttributes.offsetContiguous first second length = true <->
      (first = none ∧ second = none) ∨
      ∃ before behind, first = some before ∧ second = some behind ∧
        before + length / pageSize = behind ∧ behind < wordLimit := by
  cases first with
  | none =>
    cases second with
    | none => simp [VmaAttributes.offsetContiguous]
    | some behind => simp [VmaAttributes.offsetContiguous]
  | some before =>
    cases second with
    | none => simp [VmaAttributes.offsetContiguous]
    | some behind =>
      unfold VmaAttributes.offsetContiguous
      rw [decide_eq_true_eq, checkedAdd_eq_some_iff]
      constructor
      · intro sum
        exact .inr ⟨before, behind, rfl, rfl, sum⟩
      · rintro (⟨none, _⟩ | ⟨_, _, ⟨rfl⟩, ⟨rfl⟩, sum⟩)
        · cases none
        · exact sum

theorem continuedBy_iff {first second : SemanticVma} :
    first.continuedBy second = true <->
      first.stop = second.start ∧
        first.attributes.canMergeWith second.attributes (first.stop - first.start) = true := by
  unfold SemanticVma.continuedBy
  rw [Bool.and_eq_true, decide_eq_true_eq]

theorem attributesAt_of_continuedBy {first second : SemanticVma} (paged : first.Paged)
    (continued : first.continuedBy second = true) {address : Nat} (above : second.start <= address) :
    first.attributesAt address = second.attributesAt address := by
  rcases continuedBy_iff.mp continued with ⟨touch, merge⟩
  rcases canMergeWith_iff.mp merge with ⟨contiguous, same⟩
  have traits : ∀ offset, first.attributes.withOffset offset =
      second.attributes.withOffset offset := by
    intro offset
    rw [same]
    rfl
  unfold SemanticVma.attributesAt
  rw [traits]
  rcases offsetContiguous_iff.mp contiguous with ⟨none, other⟩ | ⟨before, behind, one, two, sum, _⟩
  · rw [none, other]
    rfl
  · have pages := div_sub_of_dvd paged.start_aligned paged.stop_aligned
      (Nat.le_of_lt paged.ordered) (touch ▸ above)
    rw [one, two, Option.map_some, Option.map_some, pages, <- sum, touch, Nat.add_assoc]

/-- Whether a third row continues a joined row depends on the second one only. -/
theorem extendedBy_continuedBy {first second third : SemanticVma} (pagedFirst : first.Paged)
    (pagedSecond : second.Paged) (continued : first.continuedBy second = true) :
    (first.extendedBy second).continuedBy third = second.continuedBy third := by
  rcases continuedBy_iff.mp continued with ⟨touch, merge⟩
  rcases canMergeWith_iff.mp merge with ⟨contiguous, same⟩
  have pages := div_sub_of_dvd pagedFirst.start_aligned pagedFirst.stop_aligned
    (Nat.le_of_lt pagedFirst.ordered) (touch ▸ Nat.le_of_lt pagedSecond.ordered)
  have offsets : VmaAttributes.offsetContiguous first.attributes.filePageOffset
        third.attributes.filePageOffset (second.stop - first.start) = true <->
      VmaAttributes.offsetContiguous second.attributes.filePageOffset
        third.attributes.filePageOffset (second.stop - second.start) = true := by
    rw [offsetContiguous_iff, offsetContiguous_iff]
    rcases offsetContiguous_iff.mp contiguous with ⟨none, other⟩ | ⟨before, behind, one, two, sum, _⟩
    · rw [none, other]
      simp
    rw [one, two, pages, touch]
    rw [touch] at sum
    simp only [reduceCtorEq, false_and, Option.some.injEq, false_or]
    constructor
    · rintro ⟨_, last, rfl, has, total, bound⟩
      exact ⟨behind, last, rfl, has, by omega, bound⟩
    · rintro ⟨_, last, rfl, has, total, bound⟩
      exact ⟨before, last, rfl, has, by omega, bound⟩
  have traits : first.attributes = third.attributes.withOffset first.attributes.filePageOffset <->
      second.attributes = third.attributes.withOffset second.attributes.filePageOffset := by
    constructor
    · intro equal
      have back : second.attributes =
          first.attributes.withOffset second.attributes.filePageOffset := by
        rw [same]
        rfl
      rw [back, equal]
      rfl
    · intro equal
      rw [same, equal]
      rfl
  rw [Bool.eq_iff_iff, continuedBy_iff, continuedBy_iff, canMergeWith_iff, canMergeWith_iff]
  exact and_congr Iff.rfl (and_congr offsets traits)

/-- The rows of a VMA map as rows that join. -/
def kit : Joining SemanticVma VmaAttributes where
  bounds row := (row.start, row.stop)
  valueAt := SemanticVma.attributesAt
  joins := SemanticVma.continuedBy
  join := SemanticVma.extendedBy
  good := SemanticVma.Paged
  nonempty paged := paged.ordered
  touching continued := (continuedBy_iff.mp continued).1
  good_join first second continued :=
    ⟨by
      have touch := (continuedBy_iff.mp continued).1
      have one := first.ordered
      have two := second.ordered
      change _ < _
      dsimp only [SemanticVma.extendedBy]
      omega, first.start_aligned, second.stop_aligned, first.offset_word⟩
  bounds_join _ _ := rfl
  value_below _ _ := rfl
  value_above first _ continued _ above := attributesAt_of_continuedBy first continued above
  joins_join first second continued _ _ := extendedBy_continuedBy first second continued
  join_joins _ _ := rfl

/-- The attributes of each mapped address. -/
def meaning (rows : Rows) : Nat -> Option VmaAttributes := kit.meaning rows

/-- Sorted, disjoint, on page boundaries and nowhere mergeable. -/
abbrev Coalesced (rows : Rows) : Prop := kit.Coalesced rows

/-! ## The vector operations are seams -/

theorem tryMergeAdjacent_eq_seam {left : Rows} (nonempty : left ≠ []) (right : Rows) :
    tryMergeAdjacent (left ++ right) (left.length - 1) = kit.seam left right := by
  rcases List.eq_nil_or_concat left with empty | ⟨before, last, whole⟩
  · exact absurd empty nonempty
  rw [whole, List.concat_eq_append]
  have index : (before ++ [last]).length - 1 = before.length := by simp
  rw [index]
  unfold tryMergeAdjacent
  cases right with
  | nil =>
    rw [Joining.seam_nil_right, List.append_nil]
    simp
  | cons head rest =>
    rw [Joining.seam_concat]
    have flat : before ++ [last] ++ head :: rest = before ++ last :: head :: rest := by simp
    rw [flat]
    have one : (before ++ last :: head :: rest)[before.length]? = some last := by simp
    have two : (before ++ last :: head :: rest)[before.length + 1]? = some head := by simp
    have front : (before ++ last :: head :: rest).take before.length = before := by simp
    have back : (before ++ last :: head :: rest).drop (before.length + 2) = rest := by
      rw [<- List.drop_drop, List.drop_left]
      rfl
    rw [one, two]
    dsimp only
    rw [front, back]
    rfl

theorem coalesceFrom_eq (last : SemanticVma) (rows : Rows) :
    coalesceFrom last rows = kit.coalesceFrom last rows := by
  induction rows generalizing last with
  | nil => rfl
  | cons row rest ih =>
    rw [coalesceFrom, Joining.coalesceFrom, ih, ih]
    rfl

theorem coalesce_eq (rows : Rows) : coalesce rows = kit.coalesce rows := by
  cases rows with
  | nil => rfl
  | cons row rest => exact coalesceFrom_eq row rest

theorem tryMergeAdjacent_behind (before : Rows) {middle : Rows} (nonempty : middle ≠ [])
    (after : Rows) :
    tryMergeAdjacent (before ++ (middle ++ after)) (before.length + middle.length - 1) =
      before ++ kit.seam middle after := by
  have both : before ++ middle ≠ [] := by simp [nonempty]
  have merged := tryMergeAdjacent_eq_seam both after
  rw [List.append_assoc, List.length_append, Joining.seam_append_left before nonempty] at merged
  exact merged

theorem tryMergeAdjacent_before (before rows : Rows) :
    (if 0 < before.length then tryMergeAdjacent (before ++ rows) (before.length - 1)
      else before ++ rows) = kit.seam before rows := by
  cases before with
  | nil =>
    rw [Joining.seam_nil_left]
    rfl
  | cons row rest =>
    rw [if_pos (by simp)]
    exact tryMergeAdjacent_eq_seam (by simp) rows

theorem insertAt_eq (vma : SemanticVma) (before after : Rows) :
    insertAt vma before.length (before ++ after) = kit.seam before (kit.seam [vma] after) := by
  have merged := tryMergeAdjacent_behind before (List.cons_ne_nil vma []) after
  unfold insertAt
  rw [List.take_left, List.drop_left]
  dsimp only
  rw [<- tryMergeAdjacent_before, <- merged]
  rfl

theorem mergeAround_eq (before : Rows) {middle : Rows} (nonempty : middle ≠ []) (after : Rows) :
    mergeAround before.length middle.length (before ++ (middle ++ after)) =
      kit.seam before (kit.seam middle after) := by
  have positive : 0 < middle.length := List.length_pos_iff.mpr nonempty
  have behind : (if before.length + middle.length < (before ++ (middle ++ after)).length then
        tryMergeAdjacent (before ++ (middle ++ after)) (before.length + middle.length - 1)
      else before ++ (middle ++ after)) = before ++ kit.seam middle after := by
    cases after with
    | nil =>
      rw [if_neg (by simp), Joining.seam_nil_right, List.append_nil]
    | cons row rest =>
      rw [if_pos (by simp)]
      exact tryMergeAdjacent_behind before nonempty _
  unfold mergeAround
  rw [if_pos positive]
  dsimp only
  rw [behind, tryMergeAdjacent_before]

end VmaMap
end Carrick
