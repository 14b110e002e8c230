import Mathlib.Data.List.Rotate

namespace Carrick
namespace Foundation

/-!
# Slices of a list

A buffer is a list, and the code reads and writes contiguous slices of it and
rotates a leading part.  Every lemma reduces to one entry of the buffer, so
that equality of slices is proved entry by entry.
-/

universe u

variable {T : Type u}

/-- The entries `[start, start + count)`. -/
def slice (items : List T) (start count : Nat) : List T :=
  (items.drop start).take count

/-- The buffer with `new` written at `start`. -/
def overwrite (items : List T) (start : Nat) (new : List T) : List T :=
  items.take start ++ new ++ items.drop (start + new.length)

/-- The buffer with its first `limit` entries rotated left by `amount`. -/
def rotateFront (items : List T) (limit amount : Nat) : List T :=
  (items.take limit).rotate amount ++ items.drop limit

theorem getElem?_slice (items : List T) (start count index : Nat) :
    (slice items start count)[index]? = if index < count then items[start + index]? else none := by
  unfold slice
  rw [List.getElem?_take, List.getElem?_drop]

variable {items : List T} {start count : Nat}

theorem length_slice (inside : start + count <= items.length) :
    (slice items start count).length = count := by
  unfold slice
  rw [List.length_take, List.length_drop]
  omega

@[simp]
theorem slice_zero (items : List T) (start : Nat) : slice items start 0 = [] := by
  simp [slice]

theorem slice_congr {others : List T} {otherStart : Nat}
    (same : ∀ index, index < count -> items[start + index]? = others[otherStart + index]?) :
    slice items start count = slice others otherStart count := by
  apply List.ext_getElem?
  intro index
  rw [getElem?_slice, getElem?_slice]
  by_cases inside : index < count
  · rw [if_pos inside, if_pos inside]
    exact same index inside
  · rw [if_neg inside, if_neg inside]

theorem slice_append (items : List T) (start first second : Nat) :
    slice items start (first + second) =
      slice items start first ++ slice items (start + first) second := by
  unfold slice
  rw [List.take_add, List.drop_drop]

theorem take_slice (items : List T) (start count shorter : Nat) (le : shorter <= count) :
    (slice items start count).take shorter = slice items start shorter := by
  unfold slice
  rw [List.take_take, Nat.min_eq_left le]

variable {new : List T}

theorem length_overwrite (inside : start + new.length <= items.length) :
    (overwrite items start new).length = items.length := by
  unfold overwrite
  simp only [List.length_append, List.length_take, List.length_drop]
  omega

variable {index : Nat}

theorem getElem?_overwrite_inside (inside : start + new.length <= items.length)
    (lower : start <= index) (upper : index < start + new.length) :
    (overwrite items start new)[index]? = new[index - start]? := by
  have taken : (items.take start).length = start := by
    rw [List.length_take]
    omega
  unfold overwrite
  rw [List.append_assoc, List.getElem?_append_right (by omega), taken,
    List.getElem?_append_left (by omega)]

theorem getElem?_overwrite_outside (inside : start + new.length <= items.length)
    (outside : index < start ∨ start + new.length <= index) :
    (overwrite items start new)[index]? = items[index]? := by
  have taken : (items.take start).length = start := by
    rw [List.length_take]
    omega
  unfold overwrite
  rcases outside with below | above
  · rw [List.append_assoc, List.getElem?_append_left (by omega), List.getElem?_take, if_pos below]
  rw [List.getElem?_append_right (by simp only [List.length_append, taken]; omega),
    List.getElem?_drop]
  congr 1
  simp only [List.length_append, taken]
  omega

theorem slice_overwrite_outside {other : Nat} (inside : start + new.length <= items.length)
    (outside : other + count <= start ∨ start + new.length <= other) :
    slice (overwrite items start new) other count = slice items other count := by
  apply slice_congr
  intro index below
  exact getElem?_overwrite_outside inside (by omega)

theorem slice_overwrite_inside (inside : start + new.length <= items.length)
    (le : count <= new.length) :
    slice (overwrite items start new) start count = new.take count := by
  apply List.ext_getElem?
  intro index
  rw [getElem?_slice, List.getElem?_take]
  by_cases below : index < count
  · rw [if_pos below, if_pos below, getElem?_overwrite_inside inside (by omega) (by omega)]
    congr 1
    omega
  · rw [if_neg below, if_neg below]

theorem length_rotateFront (items : List T) (limit amount : Nat) :
    (rotateFront items limit amount).length = items.length := by
  unfold rotateFront
  simp only [List.length_append, List.length_rotate, List.length_take, List.length_drop]
  omega

theorem getElem?_rotateFront {limit amount : Nat} (inside : limit <= items.length)
    (below : index < limit) :
    (rotateFront items limit amount)[index]? = items[(index + amount) % limit]? := by
  have taken : (items.take limit).length = limit := by
    rw [List.length_take]
    omega
  unfold rotateFront
  rw [List.getElem?_append_left (by rw [List.length_rotate]; omega),
    List.getElem?_rotate (by omega), taken, List.getElem?_take,
    if_pos (Nat.mod_lt _ (by omega))]

/-! ## Cutting into pieces -/

/-- `cut size fuel items` takes off at most `fuel` pieces of `size` entries. -/
def cut (size : Nat) : Nat -> List T -> List (List T)
  | 0, _ => []
  | fuel + 1, items =>
    if items = [] then [] else items.take size :: cut size fuel (items.drop size)

/-- The pieces of `size` entries, the last one possibly shorter. -/
def chunks (size : Nat) (items : List T) : List (List T) :=
  cut size items.length items

/-- The induction rule for pieces: one is taken off the front of what remains. -/
theorem cut_induction {size : Nat} (positive : 0 < size)
    (holds : List T -> List (List T) -> Prop) (atEnd : holds [] [])
    (onward : ∀ items pieces, items ≠ [] -> holds (items.drop size) pieces ->
      holds items (items.take size :: pieces)) :
    ∀ (fuel : Nat) (items : List T), items.length <= fuel -> holds items (cut size fuel items) := by
  intro fuel
  induction fuel with
  | zero =>
    intro items short
    have empty : items = [] := List.eq_nil_of_length_eq_zero (by omega)
    rw [empty]
    exact atEnd
  | succ fuel ih =>
    intro items short
    unfold cut
    by_cases empty : items = []
    · rw [if_pos empty, empty]
      exact atEnd
    rw [if_neg empty]
    refine onward items _ empty (ih _ ?_)
    have nonempty := List.length_pos_of_ne_nil empty
    rw [List.length_drop]
    omega

theorem chunks_induction {size : Nat} (positive : 0 < size)
    (holds : List T -> List (List T) -> Prop) (atEnd : holds [] [])
    (onward : ∀ items pieces, items ≠ [] -> holds (items.drop size) pieces ->
      holds items (items.take size :: pieces)) (items : List T) :
    holds items (chunks size items) :=
  cut_induction positive holds atEnd onward items.length items (le_refl _)

end Foundation
end Carrick
