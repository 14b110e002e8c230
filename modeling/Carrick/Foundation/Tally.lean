import Mathlib.Algebra.GroupWithZero.Nat

namespace Carrick
namespace Foundation

/-!
# Counting over the cells of a list

A tally adds up a number for each cell of a list.  Replacing one cell moves the
tally by the difference of the two cells, which is what bookkeeping over an
array of records comes down to.
-/

universe u

variable {T : Type u}

def tally (weight : T -> Nat) (cells : List T) : Nat :=
  (cells.map weight).sum

@[simp] theorem tally_nil (weight : T -> Nat) : tally weight [] = 0 := rfl

@[simp] theorem tally_cons (weight : T -> Nat) (cell : T) (cells : List T) :
    tally weight (cell :: cells) = weight cell + tally weight cells := by
  unfold tally
  rw [List.map_cons, List.sum_cons]

theorem tally_append (weight : T -> Nat) (front back : List T) :
    tally weight (front ++ back) = tally weight front + tally weight back := by
  unfold tally
  rw [List.map_append, List.sum_append]

theorem tally_eq_zero {weight : T -> Nat} {cells : List T}
    (zero : ∀ cell ∈ cells, weight cell = 0) : tally weight cells = 0 := by
  induction cells with
  | nil => rfl
  | cons cell rest ih =>
    rw [tally_cons, zero cell (by simp),
      ih (fun other listed => zero other (by simp [listed]))]

theorem tally_congr {weight other : T -> Nat} {cells : List T}
    (same : ∀ cell ∈ cells, weight cell = other cell) :
    tally weight cells = tally other cells := by
  unfold tally
  rw [List.map_congr_left same]

theorem tally_set (weight : T -> Nat) {cells : List T} {index : Nat} {old : T}
    (there : cells[index]? = some old) (new : T) :
    tally weight (cells.set index new) + weight old = tally weight cells + weight new := by
  induction cells generalizing index with
  | nil => cases there
  | cons cell rest ih =>
    cases index with
    | zero =>
      rw [List.getElem?_cons_zero, Option.some.injEq] at there
      subst there
      rw [List.set_cons_zero, tally_cons, tally_cons]
      omega
    | succ index =>
      rw [List.getElem?_cons_succ] at there
      have later := ih there
      rw [List.set_cons_succ, tally_cons, tally_cons]
      omega

theorem le_tally (weight : T -> Nat) {cells : List T} {cell : T} (listed : cell ∈ cells) :
    weight cell <= tally weight cells := by
  induction cells with
  | nil => cases listed
  | cons first rest ih =>
    rw [tally_cons]
    rcases List.mem_cons.mp listed with same | later
    · rw [same]
      omega
    · have bound := ih later
      omega

end Foundation
end Carrick
