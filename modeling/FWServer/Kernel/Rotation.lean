import Mathlib.Data.Int.ModEq
import Mathlib.Data.Set.Function
import Mathlib.Order.Interval.Set.Defs

/-!
# Rotation

The numbers from `n` on have remainders by `d` that go round: any `d` of them in a row, and no more, have different
remainders, and each remainder occurs among them.
-/

namespace Rotation

variable {d m n i j x : ℕ}

/-- Of `d` numbers in a row no two have the same remainder. -/
theorem eq_of_mod_eq (hi : i < d) (hj : j < d) (h : (i + n) % d = (j + n) % d) :
  i = j
  := by
  have hmod : i ≡ j [MOD d] := Nat.ModEq.add_right_cancel' n h
  apply hmod.eq_of_lt_of_lt hi hj

/-- Each remainder occurs among `d` numbers in a row. -/
theorem exists_mod_eq (n : ℕ) (hx : x < d) :
  ∃ i < d, (i + n) % d = x
  := by
  have hd : 0 < d := Nat.zero_lt_of_lt hx
  use (x + (d - n % d)) % d, Nat.mod_lt _ hd
  have hn : d - n % d + n = d + d * (n / d) := by
    have hdiv := Nat.mod_add_div n d
    have hlt := Nat.mod_lt n hd
    omega
  rw [Nat.mod_add_mod, Nat.add_assoc, hn, ← Nat.add_assoc, Nat.add_mul_mod_self_left, Nat.add_mod_right]
  apply Nat.mod_eq_of_lt hx

/-- As many numbers in a row have different remainders as there are remainders. -/
theorem injOn_iff (hd : 0 < d) :
  Set.InjOn (fun i => (i + n) % d) (Set.Iio m) ↔ m ≤ d
  := by
  constructor
  · intro hinj
    by_contra hlt
    have hm : d < m := Nat.lt_of_not_le hlt
    have hsame : (d + n) % d = (0 + n) % d := by rw [Nat.add_mod_left, Nat.zero_add]
    have hzero := hinj (Set.mem_Iio.mpr hm) (Set.mem_Iio.mpr (Nat.zero_lt_of_lt hm)) hsame
    omega
  · intro hle i hi j hj h
    apply eq_of_mod_eq (Nat.lt_of_lt_of_le hi hle) (Nat.lt_of_lt_of_le hj hle) h

end Rotation
