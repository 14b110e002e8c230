import Mathlib.Data.Nat.Bitwise
import Mathlib.Tactic.Common

namespace Carrick
namespace Foundation

/-!
# Unsigned 64-bit arithmetic over the natural numbers

A machine word is a natural number below `wordLimit`.  The checked operations
answer `none` exactly where the machine operation would leave that range, and
the saturating ones stop at the largest word.  Stating them over `Nat` keeps
every in-range computation available to ordinary linear arithmetic.
-/

/-- The exclusive upper end of the 64-bit words. -/
def wordLimit : Nat := 18446744073709551616

theorem wordLimit_pos : 0 < wordLimit := by decide

def checkedAdd (left right : Nat) : Option Nat :=
  if left + right < wordLimit then some (left + right) else none

def saturatingAdd (left right : Nat) : Nat :=
  min (left + right) (wordLimit - 1)

def checkedSub (left right : Nat) : Option Nat :=
  if right <= left then some (left - right) else none

def wrappingSub (left right : Nat) : Nat :=
  (left + wordLimit - right) % wordLimit

/-- Round up to a multiple of `alignment`, failing on overflow. -/
def alignUp (value alignment : Nat) : Option Nat :=
  if value % alignment = 0 then some value
  else checkedAdd value (alignment - value % alignment)

theorem checkedAdd_eq_some_iff {left right total : Nat} :
    checkedAdd left right = some total <-> left + right = total ∧ total < wordLimit := by
  unfold checkedAdd
  by_cases inRange : left + right < wordLimit
  · rw [if_pos inRange, Option.some.injEq]
    constructor
    · intro same
      exact ⟨same, same ▸ inRange⟩
    · intro parts
      exact parts.1
  rw [if_neg inRange]
  constructor
  · intro impossible
    cases impossible
  · intro parts
    exact False.elim (inRange (parts.1 ▸ parts.2))

theorem checkedAdd_of_lt {left right : Nat} (inRange : left + right < wordLimit) :
    checkedAdd left right = some (left + right) :=
  if_pos inRange

theorem checkedSub_eq_some_iff {left right rest : Nat} :
    checkedSub left right = some rest <-> right <= left ∧ left - right = rest := by
  unfold checkedSub
  by_cases ordered : right <= left
  · simp [ordered]
  · simp [ordered]

theorem saturatingAdd_of_lt {left right : Nat} (inRange : left + right < wordLimit) :
    saturatingAdd left right = left + right := by
  unfold saturatingAdd
  omega

theorem alignUp_of_dvd {value alignment : Nat} (aligned : alignment ∣ value) :
    alignUp value alignment = some value :=
  if_pos (Nat.mod_eq_zero_of_dvd aligned)

theorem le_of_alignUp {value alignment rounded : Nat}
    (computed : alignUp value alignment = some rounded) : value <= rounded := by
  unfold alignUp at computed
  split at computed
  · cases computed
    exact le_rfl
  · have parts := checkedAdd_eq_some_iff.mp computed
    omega

theorem dvd_of_alignUp {value alignment rounded : Nat} (positive : 0 < alignment)
    (computed : alignUp value alignment = some rounded) : alignment ∣ rounded := by
  unfold alignUp at computed
  split at computed
  · cases computed
    exact Nat.dvd_of_mod_eq_zero (by assumption)
  have parts := checkedAdd_eq_some_iff.mp computed
  have remainder := Nat.mod_lt value positive
  have decomposition := Nat.div_add_mod value alignment
  refine ⟨value / alignment + 1, ?_⟩
  rw [Nat.mul_add, Nat.mul_one]
  omega

end Foundation
end Carrick
