import Mathlib.Algebra.Group.Int.Defs
import Mathlib.Algebra.Group.Nat.Defs

/-!
# Counts in an `int`

A variable of 32 bits that is only ever stepped up and down, as the references to something are, counts without its
sign: `count` is what it has counted to, as long as that fits 32 bits.  Compared with zero it is positive only up to
`2 ^ 31 - 1`.
-/

namespace Counts

/-- What a variable has counted to. -/
def count (x : Int32) : ℕ :=
  x.toBitVec.toNat

@[simp]
theorem count_zero :
  count 0 = 0
  := rfl

@[simp]
theorem count_one :
  count 1 = 1
  := rfl

variable {x : Int32}

theorem count_eq_zero :
  count x = 0 ↔ x = 0
  := by
  constructor
  · intro h
    apply Int32.toBitVec_inj.mp
    exact BitVec.eq_of_toNat_eq h
  · rintro rfl
    rfl

theorem count_add_one (h : count x + 1 < 2 ^ 32) :
  count (x + 1) = count x + 1
  := by
  rw [count, Int32.toBitVec_add, BitVec.toNat_add]
  exact Nat.mod_eq_of_lt h

theorem count_sub_one (h : 0 < count x) :
  count (x - 1) = count x - 1
  := by
  have hlt : count x < 2 ^ 32 := x.toBitVec.isLt
  rw [count, Int32.toBitVec_sub, BitVec.toNat_sub]
  have hone : (1 : Int32).toBitVec.toNat = 1 := rfl
  rw [hone]
  change (2 ^ 32 - 1 + count x) % 2 ^ 32 = count x - 1
  omega

/-- The last one goes. -/
theorem sub_one_eq_zero (h : 0 < count x) :
  x - 1 = 0 ↔ count x = 1
  := by
  rw [← count_eq_zero, count_sub_one h]
  omega

/-- The largest `int`. -/
theorem eq_maxValue (h : count x = 2 ^ 31 - 1) :
  x = Int32.maxValue
  := by
  apply Int32.toBitVec_inj.mp
  exact BitVec.eq_of_toNat_eq h

theorem pos_iff :
  0 < x ↔ 0 < count x ∧ count x < 2 ^ 31
  := by
  rw [Int32.lt_iff_toInt_lt]
  have hlt : count x < 2 ^ 32 := x.toBitVec.isLt
  have hint : x.toInt = if 2 * count x < 2 ^ 32 then (count x : Int) else count x - 2 ^ 32 :=
    BitVec.toInt_eq_toNat_cond x.toBitVec
  have hzero : (0 : Int32).toInt = 0 := rfl
  rw [hzero, hint]
  split <;> omega

end Counts
