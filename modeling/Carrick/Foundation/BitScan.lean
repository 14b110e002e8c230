import Mathlib.Algebra.Order.Ring.Nat
import Mathlib.Data.Nat.SuccPred

namespace Carrick
namespace Foundation

/-!
# Walking the set bits of a word

A word is searched for its set bits by taking the lowest one and clearing it.
Clearing the lowest bit touches no higher bit, so that the walk meets them all.
-/

variable {width : Nat}

/-- The word without its lowest set bit, as `bits & (bits - 1)`. -/
def clearLowest (bits : BitVec width) : BitVec width := bits &&& (bits - BitVec.ofNat width 1)

/-- Subtracting one from a number leaves the part above a set bit alone. -/
theorem sub_one_div_two_pow {number bit : Nat} (set : number.testBit bit = true) :
    (number - 1) / 2 ^ (bit + 1) = number / 2 ^ (bit + 1) := by
  have positive : 0 < 2 ^ (bit + 1) := Nat.two_pow_pos _
  have low : (number % 2 ^ (bit + 1)).testBit bit = true := by
    rw [Nat.testBit_mod_two_pow, set]
    simp
  have enough : 2 ^ bit <= number % 2 ^ (bit + 1) := Nat.ge_two_pow_of_testBit low
  have one : 0 < 2 ^ bit := Nat.two_pow_pos bit
  have short : number % 2 ^ (bit + 1) < 2 ^ (bit + 1) := Nat.mod_lt _ positive
  have split := Nat.mod_add_div number (2 ^ (bit + 1))
  calc (number - 1) / 2 ^ (bit + 1)
      = (number % 2 ^ (bit + 1) - 1 + 2 ^ (bit + 1) * (number / 2 ^ (bit + 1))) /
          2 ^ (bit + 1) := by congr 1; omega
    _ = (number % 2 ^ (bit + 1) - 1) / 2 ^ (bit + 1) + number / 2 ^ (bit + 1) :=
        Nat.add_mul_div_left _ _ positive
    _ = number / 2 ^ (bit + 1) := by rw [Nat.div_eq_of_lt (by omega), Nat.zero_add]

theorem testBit_sub_one {number bit index : Nat} (set : number.testBit bit = true)
    (above : bit < index) : (number - 1).testBit index = number.testBit index := by
  have shift : index = (index - (bit + 1)) + (bit + 1) := by omega
  rw [shift, <- Nat.testBit_div_two_pow, <- Nat.testBit_div_two_pow, sub_one_div_two_pow set]

theorem ctz_toNat_lt {bits : BitVec 64} (nonzero : bits ≠ 0) : bits.ctz.toNat < 64 := by
  have bound := BitVec.lt_def.mp (BitVec.ctz_lt_iff_ne_zero.mpr nonzero)
  simpa using bound

/-- Every set bit of a word is its lowest one or is kept by clearing that. -/
theorem getLsbD_clearLowest {bits : BitVec width} {index : Nat} (set : bits.getLsbD index = true) :
    index = bits.ctz.toNat ∨ (clearLowest bits).getLsbD index = true := by
  have nonzero : bits ≠ BitVec.ofNat width 0 := by
    rintro rfl
    simp at set
  have lowest := BitVec.getLsbD_true_ctz_of_ne_zero nonzero
  rcases Nat.lt_trichotomy index bits.ctz.toNat with below | same | above
  · rw [BitVec.getLsbD_false_of_lt_ctz below] at set
    cases set
  · exact .inl same
  refine .inr ?_
  have positive : 0 < bits.toNat := by
    rw [Nat.pos_iff_ne_zero]
    exact fun zero => nonzero (BitVec.eq_of_toNat_eq zero)
  have wide : 0 < width := by
    by_contra narrow
    have none : width = 0 := by omega
    subst none
    exact nonzero (Subsingleton.elim _ _)
  have less : (bits - BitVec.ofNat width 1).toNat = bits.toNat - 1 := by
    have one : (BitVec.ofNat width 1).toNat = 1 := by simp [wide]
    rw [BitVec.toNat_sub_of_le (by rw [BitVec.le_def, one]; exact positive), one]
  have kept := testBit_sub_one lowest above
  unfold clearLowest
  rw [BitVec.getLsbD_and, set, Bool.true_and]
  unfold BitVec.getLsbD at set ⊢
  rw [less, kept]
  exact set

end Foundation
end Carrick
