import Mathlib.Data.Int.ModEq
import Mathlib.Data.Nat.Notation

/-!
# Little-endian numbers

The bytes of a number from the least significant one on.  `LittleEndian.decode_encode` is the round trip of
a number that fits its bytes, and `LittleEndian.bmod_decode_encodeInt` that of a signed one, which is stored
by its remainder.  `LittleEndian.toInt` is what is left of a number in a signed integer of four bytes.
-/

namespace LittleEndian

/-- The `k` least significant bytes of a number. -/
def encode : ℕ → ℕ → List UInt8
  | 0, _ => []
  | k + 1, n => UInt8.ofNat n :: encode k (n / 256)

/-- The number that bytes stand for. -/
def decode : List UInt8 → ℕ
  | [] => 0
  | b :: bs => b.toNat + 256 * decode bs

/-- The `k` least significant bytes of an integer in two's complement. -/
def encodeInt (k : ℕ) (n : ℤ) : List UInt8 :=
  encode k (n % 256 ^ k).toNat

/-- The `int` of four bytes that a number is converted to. -/
def toInt (n : ℤ) : ℤ :=
  n.bmod (2 ^ 32)

@[simp]
theorem length_encode (k n : ℕ) :
  (encode k n).length = k
  := by
  induction k generalizing n with
  | zero => rfl
  | succ k ih => rw [encode, List.length_cons, ih]

@[simp]
theorem length_encodeInt (k : ℕ) (n : ℤ) :
  (encodeInt k n).length = k
  := length_encode k _

theorem decode_encode_mod (k n : ℕ) :
  decode (encode k n) = n % 256 ^ k
  := by
  induction k generalizing n with
  | zero => rw [encode, decode, Nat.pow_zero, Nat.mod_one]
  | succ k ih =>
      have hpow : 256 ^ (k + 1) = 256 * 256 ^ k := Nat.pow_succ'
      rw [hpow, Nat.mod_mul, encode, decode, ih, UInt8.toNat_ofNat']

theorem decode_encode {k n : ℕ} (h : n < 256 ^ k) :
  decode (encode k n) = n
  := by
  rw [decode_encode_mod, Nat.mod_eq_of_lt h]

theorem decode_lt (bs : List UInt8) :
  decode bs < 256 ^ bs.length
  := by
  induction bs with
  | nil => exact Nat.one_pos
  | cons b bs ih =>
      have hb := b.toNat_lt
      rw [decode, List.length_cons, Nat.pow_succ]
      omega

theorem decode_encodeInt (k : ℕ) (n : ℤ) :
  (decode (encodeInt k n) : ℤ) = n % 256 ^ k
  := by
  have hpos : (0 : ℤ) < 256 ^ k := Int.pow_pos (by decide)
  have hnonneg : 0 ≤ n % 256 ^ k := Int.emod_nonneg _ (Int.ne_of_gt hpos)
  have hlt : n % 256 ^ k < 256 ^ k := Int.emod_lt_of_pos _ hpos
  rw [encodeInt, decode_encode, Int.toNat_of_nonneg hnonneg]
  rw [← Int.ofNat_lt, Int.toNat_of_nonneg hnonneg]
  exact_mod_cast hlt

/-- An integer is read back up to its residue. -/
theorem bmod_decode_encodeInt (k : ℕ) (n : ℤ) :
  (decode (encodeInt k n) : ℤ).bmod (256 ^ k) = n.bmod (256 ^ k)
  := by
  rw [decode_encodeInt]
  exact_mod_cast Int.emod_bmod n (256 ^ k)

/-! ### Conversion to an `int` -/

theorem toInt_of_lt {n : ℕ} (h : n < 2 ^ 31) :
  toInt n = n
  := by
  unfold toInt
  rw [Int.bmod_def]
  omega

theorem toInt_of_ge {n : ℕ} (h : 2 ^ 31 ≤ n) (hn : n < 2 ^ 32) :
  toInt n < 0
  := by
  unfold toInt
  rw [Int.bmod_def]
  omega

theorem toInt_le (n : ℕ) :
  toInt n ≤ n
  := by
  unfold toInt
  rw [Int.bmod_def]
  omega

end LittleEndian
