import Mathlib.Data.Int.Notation
import Mathlib.Data.Nat.Notation

/-!
# Decimal notation

Numbers in decimal notation, as the bytes of their digits in ASCII.
-/

namespace Decimal

/-- The byte of a digit. -/
def digit (d : ℕ) : UInt8 := UInt8.ofNat (48 + d)

def isDigit (c : UInt8) : Bool := 48 ≤ c && c ≤ 57

/-- The notation of a number. -/
def digits (n : ℕ) : List UInt8 :=
  (Nat.toDigits 10 n).map fun c => UInt8.ofNat c.toNat

/-- The number that digits stand for. -/
def value (s : List UInt8) : ℕ :=
  s.foldl (fun a c => a * 10 + (c.toNat - 48)) 0

/-- The notation of an integer. -/
def signed (n : ℤ) : List UInt8 :=
  if n < 0 then 45 :: digits n.natAbs else digits n.natAbs

theorem isDigit_digit {d : ℕ} (h : d < 10) :
  isDigit (digit d) = true
  := by
  have hall : ∀ d < 10, isDigit (digit d) = true := by decide
  exact hall d h

theorem toNat_digit {d : ℕ} (h : d < 10) :
  (digit d).toNat = 48 + d
  := by
  have hall : ∀ d < 10, (digit d).toNat = 48 + d := by decide
  exact hall d h

theorem ofNat_digitChar {d : ℕ} (h : d < 10) :
  UInt8.ofNat (Nat.digitChar d).toNat = digit d
  := by
  have hall : ∀ d < 10, UInt8.ofNat (Nat.digitChar d).toNat = digit d := by decide
  exact hall d h

theorem digits_of_lt {n : ℕ} (h : n < 10) :
  digits n = [digit n]
  := by
  rw [digits, Nat.toDigits_of_lt_base h, List.map_singleton, ofNat_digitChar h]

/-- The last digit comes off the end. -/
theorem digits_of_le {n : ℕ} (h : 10 ≤ n) :
  digits n = digits (n / 10) ++ [digit (n % 10)]
  := by
  rw [digits, Nat.toDigits_of_base_le (by decide) h, List.map_append, List.map_singleton,
    ofNat_digitChar (Nat.mod_lt n (by decide))]
  rfl

theorem digits_ne_nil (n : ℕ) :
  digits n ≠ []
  := by
  rw [digits]
  exact fun h => Nat.toDigits_ne_nil (List.map_eq_nil_iff.mp h)

/-- Induction that takes the last digit off. -/
theorem last_digit_induction {P : ℕ → Prop} (one : ∀ n < 10, P n) (more : ∀ n, 10 ≤ n → P (n / 10) → P n) (n : ℕ) :
  P n
  := by
  induction n using Nat.strongRecOn with
  | ind n ih =>
      rcases Nat.lt_or_ge n 10 with hn | hn
      · exact one n hn
      · exact more n hn (ih (n / 10) (Nat.div_lt_self (by omega) (by decide)))

theorem isDigit_of_mem {n : ℕ} {c : UInt8} (h : c ∈ digits n) :
  isDigit c = true
  := by
  induction n using last_digit_induction with
  | one n hn =>
      rw [digits_of_lt hn, List.mem_singleton] at h
      rw [h]
      exact isDigit_digit hn
  | more n hn ih =>
      rw [digits_of_le hn, List.mem_append, List.mem_singleton] at h
      rcases h with h | h
      · exact ih h
      · rw [h]
        exact isDigit_digit (Nat.mod_lt n (by decide))

theorem value_append_digit (s : List UInt8) {d : ℕ} (h : d < 10) :
  value (s ++ [digit d]) = value s * 10 + d
  := by
  rw [value, List.foldl_append, List.foldl_cons, List.foldl_nil, toNat_digit h, Nat.add_sub_cancel_left]
  rfl

/-- A number is read back from its notation. -/
@[simp]
theorem value_digits (n : ℕ) :
  value (digits n) = n
  := by
  induction n using last_digit_induction with
  | one n hn =>
      rw [digits_of_lt hn, ← List.nil_append [digit n], value_append_digit [] hn]
      exact Nat.zero_add n
  | more n hn ih =>
      rw [digits_of_le hn, value_append_digit _ (Nat.mod_lt n (by decide)), ih]
      exact Nat.div_add_mod' n 10

end Decimal
