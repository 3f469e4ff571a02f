import FWServer.Kernel.Decimal
import Mathlib.Algebra.Group.Int.Defs
import Mathlib.Algebra.Group.Nat.Defs
import Mathlib.Data.List.TakeWhile

/-!
# Numerals

`l_str2int` of `3rd/lua/lobject.c`, which `tonumber` tries first: spaces around an integer in decimal or hexadecimal
notation with a sign.  `tonumber_signed` says that it reads the decimal notation of the integers that fit in 64 bits.
-/

namespace Lua

open Decimal (digits signed isDigit)

def isspace (c : UInt8) : Bool :=
  c = 32 || 9 ≤ c && c ≤ 13

def isxdigit (c : UInt8) : Bool :=
  isDigit c || 65 ≤ c && c ≤ 70 || 97 ≤ c && c ≤ 102

/-- `luaO_hexavalue` -/
def hexavalue (c : UInt8) : ℕ :=
  if isDigit c then c.toNat - 48
  else if 97 ≤ c then c.toNat - 97 + 10
  else c.toNat - 65 + 10

/-- `isneg`, and what comes after the sign. -/
def isneg : List UInt8 → Bool × List UInt8
  | 45 :: s => (true, s)
  | 43 :: s => (false, s)
  | s => (false, s)

/-- The loop of `l_str2int` over decimal digits, which fails when there are too many of them. -/
def decimalLoop (neg : Bool) : ℕ → List UInt8 → Option ℕ
  | a, [] => some a
  | a, c :: s =>
      let d := c.toNat - 48
      if 922337203685477580 ≤ a ∧ (922337203685477580 < a ∨ 7 + neg.toNat < d) then none
      else decimalLoop neg (a * 10 + d) s

/-- The loop over hexadecimal digits, which wraps around. -/
def hexLoop : ℕ → List UInt8 → ℕ
  | a, [] => a
  | a, c :: s => hexLoop ((a * 16 + hexavalue c) % 2 ^ 64) s

/-- `l_str2int` -/
def str2int (s : List UInt8) : Option ℤ :=
  let (neg, s) := isneg (s.dropWhile isspace)
  let hex : Bool := [48, 120].isPrefixOf s || [48, 88].isPrefixOf s
  let s := if hex then s.drop 2 else s
  let numeral := s.takeWhile (if hex then isxdigit else isDigit)
  let after := (s.dropWhile (if hex then isxdigit else isDigit)).dropWhile isspace
  if numeral = [] ∨ after ≠ [] then none
  else (if hex then some (hexLoop 0 numeral) else decimalLoop neg 0 numeral).map fun (a : ℕ) =>
    Int.bmod (if neg then -a else a) (2 ^ 64)

/-- `tonumber`, for numerals of integers. -/
def tonumber (s : List UInt8) : Option ℤ :=
  str2int s

/-! ### Decimal numerals -/

/-- The loop over decimal digits does not fail when the number fits. -/
theorem decimalLoop_eq (neg : Bool) (a : ℕ) (s : List UInt8)
    (h : s.foldl (fun a c => a * 10 + (c.toNat - 48)) a < 2 ^ 63 + neg.toNat) :
  decimalLoop neg a s = some (s.foldl (fun a c => a * 10 + (c.toNat - 48)) a)
  := by
  induction s generalizing a with
  | nil => rfl
  | cons c s ih =>
      rw [List.foldl_cons] at h ⊢
      have hle : ∀ (s : List UInt8) (a : ℕ), a ≤ s.foldl (fun a c => a * 10 + (c.toNat - 48)) a := by
        intro s
        induction s with
        | nil => exact Nat.le_refl
        | cons c s ih => exact fun a => Nat.le_trans (by omega) (ih (a * 10 + (c.toNat - 48)))
      have hnext := hle s (a * 10 + (c.toNat - 48))
      have hsign := Bool.toNat_le neg
      rw [decimalLoop, if_neg (by omega)]
      exact ih _ h

/-- A numeral with a sign and decimal digits. -/
theorem str2int_of_isneg {s ds : List UInt8} {neg : Bool} (h : isneg (s.dropWhile isspace) = (neg, ds))
    (hne : ds ≠ []) (hdigits : ∀ c ∈ ds, isDigit c = true) :
  str2int s = (decimalLoop neg 0 ds).map fun (a : ℕ) => Int.bmod (if neg then -a else a) (2 ^ 64)
  := by
  have hpre : ∀ x, isDigit x = false → [48, x].isPrefixOf ds = false := by
    intro x hx
    rw [Bool.eq_false_iff]
    intro hp
    have hmem : x ∈ ds := (List.isPrefixOf_iff_prefix.mp hp).subset (by simp)
    rw [hdigits x hmem] at hx
    cases hx
  rw [str2int, h]
  dsimp only
  rw [hpre 120 (by decide), hpre 88 (by decide)]
  simp only [Bool.or_false, Bool.false_eq_true, if_false]
  rw [List.takeWhile_eq_self_iff.mpr hdigits, List.dropWhile_eq_nil_iff.mpr hdigits, List.dropWhile_nil]
  exact if_neg (by simp [hne])

theorem isspace_of_isDigit {c : UInt8} (h : isDigit c = true) :
  isspace c = false
  := by
  simp only [isDigit, Bool.and_eq_true, decide_eq_true_eq, UInt8.le_iff_toNat_le] at h
  simp only [isspace, Bool.or_eq_false_iff, Bool.and_eq_false_iff, decide_eq_false_iff_not, UInt8.le_iff_toNat_le,
    ← UInt8.toNat_inj]
  constructor
  · intro heq
    rw [heq] at h
    exact absurd h.1 (by decide)
  · exact .inr fun hle => absurd (h.1.trans hle) (by decide)

theorem isneg_digits (n : ℕ) :
  isneg ((digits n).dropWhile isspace) = (false, digits n)
  := by
  cases hdigits : digits n with
  | nil => exact absurd hdigits (Decimal.digits_ne_nil n)
  | cons c s =>
      have hc : isDigit c = true := Decimal.isDigit_of_mem (by rw [hdigits]; exact List.mem_cons_self)
      rw [List.dropWhile_cons_of_neg (by rw [isspace_of_isDigit hc]; exact Bool.false_ne_true)]
      unfold isneg
      split
      · next heq => exact absurd ((List.cons.inj heq).1 ▸ hc) (by decide)
      · next heq => exact absurd ((List.cons.inj heq).1 ▸ hc) (by decide)
      · rfl

/-- Numbers that fit in 64 bits are read back from their notation. -/
theorem tonumber_signed {n : ℤ} (hle : -2 ^ 63 ≤ n) (hlt : n < 2 ^ 63) :
  tonumber (signed n) = some n
  := by
  have hdigits : ∀ c ∈ digits n.natAbs, isDigit c = true := fun c hc => Decimal.isDigit_of_mem hc
  have hne := Decimal.digits_ne_nil n.natAbs
  have hvalue : (digits n.natAbs).foldl (fun a c => a * 10 + (c.toNat - 48)) 0 = n.natAbs :=
    Decimal.value_digits n.natAbs
  have hbmod : Int.bmod n (2 ^ 64) = n := Int.bmod_eq_of_le (by omega) (by omega)
  rw [tonumber, signed]
  split_ifs with hneg
  · have hloop := decimalLoop_eq true 0 (digits n.natAbs) (by rw [hvalue, Bool.toNat_true]; omega)
    have hisneg : isneg ((45 :: digits n.natAbs).dropWhile isspace) = (true, digits n.natAbs) := rfl
    have habs : -(n.natAbs : ℤ) = n := by omega
    rw [str2int_of_isneg hisneg hne hdigits, hloop, hvalue, Option.map_some, if_pos rfl, habs, hbmod]
  · have hloop := decimalLoop_eq false 0 (digits n.natAbs) (by rw [hvalue, Bool.toNat_false]; omega)
    have habs : (n.natAbs : ℤ) = n := by omega
    rw [str2int_of_isneg (isneg_digits n.natAbs) hne hdigits, hloop, hvalue, Option.map_some,
      if_neg Bool.false_ne_true, habs, hbmod]

theorem tonumber_digits {n : ℕ} (h : n < 2 ^ 63) :
  tonumber (digits n) = some (n : ℤ)
  := by
  have hsigned := tonumber_signed (n := n) (by omega) (by omega)
  rwa [signed, if_neg (by omega), Int.natAbs_natCast] at hsigned

end Lua
