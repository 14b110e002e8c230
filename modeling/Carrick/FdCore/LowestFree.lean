import Carrick.FdCore.Storage

namespace Carrick
namespace FdCore

/-!
# The lowest free descriptor

A table's storage is cleared or rebuilt once, over slots of any content, and
from then on every write of a slot marks it in the bitmap.  In every state that
arises so the levels are exact, they have the words that `bitmap_words` asks
for, and the search answers with the lowest free number or says what is
missing.
-/

/-! ## The words of the bitmap -/

/-- The loop of `bitmap_words`, for a capacity of at most `fuel`. -/
def bitmapWordsLoop : Nat -> Nat -> Nat
  | 0, _ => 0
  | fuel + 1, capacity =>
    if capacity = 0 then 0
    else if (capacity + 63) / 64 = 1 then 1
    else (capacity + 63) / 64 + bitmapWordsLoop fuel ((capacity + 63) / 64)

def bitmapWords (capacity : Nat) : Nat := bitmapWordsLoop capacity capacity

/-- The number of levels that the storage has room for. -/
def maxLevels : Nat := 64 / 6 + 1

def wordCount (levels : List Level) : Nat := (levels.map List.length).sum

theorem wordCount_rebuildLevels : ∀ (fuel : Nat) (flags : List Bool),
    wordCount (rebuildLevels fuel flags) = bitmapWordsLoop fuel flags.length := by
  intro fuel
  induction fuel with
  | zero =>
    intro flags
    rfl
  | succ fuel ih =>
    intro flags
    unfold rebuildLevels bitmapWordsLoop
    by_cases empty : flags = []
    · rw [if_pos empty, empty, List.length_nil, if_pos rfl]
      rfl
    have some : flags.length ≠ 0 := fun none => empty (List.length_eq_zero_iff.mp none)
    rw [if_neg empty, if_neg some, length_packLevel]
    split_ifs with single
    · show (packLevel flags).length + 0 = 1
      rw [length_packLevel, single]
    · show (packLevel flags).length + wordCount (rebuildLevels fuel _) = _
      rw [ih, length_occupied, length_packLevel]

theorem length_rebuildLevels : ∀ (fuel depth : Nat) (flags : List Bool),
    flags.length <= 64 ^ (depth + 1) -> (rebuildLevels fuel flags).length <= depth + 1 := by
  intro fuel
  induction fuel with
  | zero =>
    intro depth flags _
    exact Nat.zero_le _
  | succ fuel ih =>
    intro depth flags short
    unfold rebuildLevels
    split_ifs with empty single
    · exact Nat.zero_le _
    · exact Nat.le_add_left _ _
    cases depth with
    | zero =>
      rw [length_packLevel] at single
      have some : flags.length ≠ 0 := fun none => empty (List.length_eq_zero_iff.mp none)
      omega
    | succ depth =>
      rw [List.length_cons]
      refine Nat.succ_le_succ (ih depth _ ?_)
      rw [length_occupied, length_packLevel]
      rw [Nat.pow_succ] at short
      omega

theorem length_markFree : ∀ (levels : List Level) (bit : Nat) (free : Bool),
    (markFree levels bit free).map List.length = levels.map List.length := by
  intro levels
  induction levels with
  | nil =>
    intro bit free
    rfl
  | cons words upper ih =>
    intro bit free
    unfold markFree
    simp only [List.map_cons, List.length_set]
    rw [ih]

/-! ## The states of a storage -/

/-- A storage as its operations leave it, from `clear` or `rebuild` on. -/
inductive Maintained : TableStorage -> Prop
  | clear {capacity : Nat} (bounded : capacity <= maxDescriptors) :
      Maintained (TableStorage.cleared capacity)
  | rebuild {entries : List DescriptorSlot} (bounded : entries.length <= maxDescriptors) :
      Maintained (TableStorage.rebuild entries)
  | install {storage : TableStorage} {fd : Nat} (entry : Entry) (earlier : Maintained storage)
      (inside : fd < storage.capacity) : Maintained (storage.install fd entry)
  | vacate {storage : TableStorage} {fd : Nat} (earlier : Maintained storage)
      (inside : fd < storage.capacity) : Maintained (storage.vacate fd)
  | update {storage : TableStorage} {fd : Nat} (entry : Entry) (earlier : Maintained storage)
      (inside : fd < storage.capacity) : Maintained (storage.update fd entry)
  | reserve {storage : TableStorage} {fd : Nat} (earlier : Maintained storage)
      (inside : fd < storage.capacity) : Maintained (storage.reserve fd)
  | unreserve {storage : TableStorage} {fd : Nat} (earlier : Maintained storage)
      (inside : fd < storage.capacity) : Maintained (storage.unreserve fd)

/-- The levels say which slots are free, in the words that the venue gave. -/
structure Indexed (storage : TableStorage) : Prop where
  consistent : Consistent storage
  words : wordCount storage.levels = bitmapWords storage.capacity
  depth : storage.levels.length <= maxLevels

theorem rebuild_indexed {entries : List DescriptorSlot} (bounded : entries.length <= maxDescriptors) :
    Indexed (TableStorage.rebuild entries) := by
  refine ⟨rebuild_consistent entries, ?_, ?_⟩
  · show wordCount (rebuildLevels _ _) = bitmapWordsLoop entries.length entries.length
    rw [wordCount_rebuildLevels, List.length_map]
  have short : (rebuildLevels entries.length (entries.map DescriptorSlot.isFree)).length <= 5 + 1 := by
    refine length_rebuildLevels _ 5 _ ?_
    rw [List.length_map]
    unfold maxDescriptors at bounded
    omega
  exact Nat.le_trans short (by decide)

variable {storage : TableStorage}

theorem write_indexed {fd : Nat} (indexed : Indexed storage)
    (inside : fd < storage.capacity) (slot : DescriptorSlot) : Indexed (storage.write fd slot) := by
  have same : ((storage.write fd slot).levels.map List.length) = storage.levels.map List.length :=
    length_markFree _ _ _
  refine ⟨TableStorage.write_consistent indexed.consistent inside slot, ?_, ?_⟩
  · rw [TableStorage.capacity_write, <- indexed.words]
    unfold wordCount
    rw [same]
  · have count := congrArg List.length same
    rw [List.length_map, List.length_map] at count
    rw [count]
    exact indexed.depth

theorem Maintained.indexed (maintained : Maintained storage) :
    Indexed storage := by
  induction maintained with
  | clear bounded => exact rebuild_indexed (by rw [List.length_replicate]; exact bounded)
  | rebuild bounded => exact rebuild_indexed bounded
  | install _ _ inside ih => exact write_indexed ih inside _
  | vacate _ inside ih => exact write_indexed ih inside _
  | update _ _ inside ih => exact write_indexed ih inside _
  | reserve _ inside ih => exact write_indexed ih inside _
  | unreserve _ inside ih => exact write_indexed ih inside _

/-! ## The search -/

/-- The answer of `allocate`: the lowest free number in the window, or what is
missing where the backed slots of the window have none. -/
def AnswersLowest (storage : TableStorage) (limit low : Nat) : Except Error Nat -> Prop
  | .ok fd => low <= fd ∧ fd < limit ∧ fd < storage.capacity ∧ (storage.slotAt fd).isFree = true ∧
      ∀ other, low <= other -> other < fd -> (storage.slotAt other).isFree = false
  | .error reason =>
    (∀ fd, low <= fd -> fd < limit -> fd < storage.capacity ->
      (storage.slotAt fd).isFree = false) ∧
    reason = if max low storage.capacity < limit
      then .needsBacking (max low storage.capacity + 1) else .tooManyFiles

/-- A search that finds nothing passed over every backed slot of the window. -/
theorem lowest_none (consistent : Consistent storage) {limit low : Nat}
    (nothing : lowest storage limit low = none) {fd : Nat} (above : low <= fd) (below : fd < limit)
    (inside : fd < storage.capacity) : (storage.slotAt fd).isFree = false := by
  have first := nextBit_lowest storage.levels _ low consistent.summary (by
    intro none
    rw [consistent.backed none]
    exact Nat.zero_le _)
  unfold lowest at nothing
  rw [if_neg (by omega)] at nothing
  have flag := getD_isFree storage fd
  rw [decide_eq_true inside, Bool.true_and] at flag
  cases search : nextBit storage.levels low with
  | none =>
    rw [search] at first
    rw [<- flag]
    exact first fd above
  | some found =>
    rw [search] at first nothing
    have beyond : limit <= found := by
      rw [Option.filter_eq_none_iff] at nothing
      simpa using nothing
    rw [<- flag]
    exact first.2.2 fd above (by omega)

theorem lowest_some (consistent : Consistent storage) {limit low fd : Nat}
    (found : lowest storage limit low = some fd) {other : Nat} (above : low <= other)
    (before : other < fd) : (storage.slotAt other).isFree = false := by
  have first := nextBit_lowest storage.levels _ low consistent.summary (by
    intro none
    rw [consistent.backed none]
    exact Nat.zero_le _)
  unfold lowest at found
  split_ifs at found with short
  rw [Option.filter_eq_some_iff] at found
  rw [found.1] at first
  have inside : fd < storage.capacity := by
    have set := first.2.1
    rw [getD_isFree, Bool.and_eq_true, decide_eq_true_eq] at set
    exact set.1
  have flag := getD_isFree storage other
  rw [decide_eq_true (by omega : other < storage.capacity), Bool.true_and] at flag
  rw [<- flag]
  exact first.2.2 other above before

/-- In every state of a storage the levels are exact and the search answers with
the lowest free number. -/
theorem allocate_lowest {storage : TableStorage} (maintained : Maintained storage)
    (limit low : Nat) :
    Indexed storage ∧ AnswersLowest storage limit low (allocate storage limit low) := by
  have indexed := maintained.indexed
  refine ⟨indexed, ?_⟩
  cases searched : lowest storage limit low with
  | none =>
    have answered : allocate storage limit low = .error (if max low storage.capacity < limit
        then .needsBacking (max low storage.capacity + 1) else .tooManyFiles) := by
      unfold allocate
      rw [searched]
      simp only
      split_ifs
      · rfl
      · rfl
    rw [answered]
    exact ⟨fun _ above below inside => lowest_none indexed.consistent searched above below inside,
      rfl⟩
  | some fd =>
    have answered : allocate storage limit low = .ok fd := by
      unfold allocate
      rw [searched]
    rw [answered]
    rcases allocate_ok indexed.consistent answered with ⟨above, below, inside, free⟩
    exact ⟨above, below, inside, free,
      fun _ lower before => lowest_some indexed.consistent searched lower before⟩

theorem small_maintained {capacity : Nat} (small : capacity <= 64) :
    Maintained (TableStorage.cleared capacity) := by
  refine .clear ?_
  unfold maxDescriptors
  omega

/-- A table of two slots whose first is taken. -/
theorem allocate_lowest_second :
    AnswersLowest ((TableStorage.cleared 2).reserve 0) 2 0 (.ok 1) := by
  have maintained : Maintained ((TableStorage.cleared 2).reserve 0) := by
    refine .reserve (small_maintained (by omega)) (by decide)
  have answered : allocate ((TableStorage.cleared 2).reserve 0) 2 0 = .ok 1 := by decide +kernel
  have answer := allocate_lowest maintained 2 0
  rw [answered] at answer
  exact answer.2

/-- One slot, and a limit of two: number 1 is below the limit and is asked for,
although the number of descriptors to back is the limit itself. -/
theorem allocate_asks_up_to_limit :
    Maintained (TableStorage.cleared 1) ∧
      allocate (TableStorage.cleared 1) 2 1 = .error (.needsBacking (max 1 1 + 1)) ∧
      ¬ max 1 (TableStorage.cleared 1).capacity + 1 < 2 := by
  exact ⟨small_maintained (by omega), by decide +kernel, by decide +kernel⟩

end FdCore
end Carrick
