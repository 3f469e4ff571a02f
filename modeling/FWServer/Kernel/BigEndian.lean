import FWServer.Kernel.LittleEndian

/-!
# Big-endian numbers

The bytes of a number from the most significant one on; `BigEndian.decode_encode` is the round trip of a number
that fits its bytes.
-/

namespace BigEndian

/-- The `k` least significant bytes of a number. -/
def encode (k n : ℕ) : List UInt8 :=
  (LittleEndian.encode k n).reverse

/-- The `k` least significant bytes of an integer in two's complement. -/
def encodeInt (k : ℕ) (n : ℤ) : List UInt8 :=
  (LittleEndian.encodeInt k n).reverse

/-- The number that bytes stand for. -/
def decode (bs : List UInt8) : ℕ :=
  bs.foldl (fun n b => n * 256 + b.toNat) 0

@[simp]
theorem length_encode (k n : ℕ) :
  (encode k n).length = k
  := by
  rw [encode, List.length_reverse, LittleEndian.length_encode]

@[simp]
theorem length_encodeInt (k : ℕ) (n : ℤ) :
  (encodeInt k n).length = k
  := by
  rw [encodeInt, List.length_reverse, LittleEndian.length_encodeInt]

theorem decode_reverse (bs : List UInt8) :
  decode bs.reverse = LittleEndian.decode bs
  := by
  unfold decode
  rw [List.foldl_reverse]
  induction bs with
  | nil => rfl
  | cons b bs ih =>
      rw [List.foldr_cons, ih, LittleEndian.decode, Nat.mul_comm, Nat.add_comm]

theorem decode_encode {k n : ℕ} (h : n < 256 ^ k) :
  decode (encode k n) = n
  := by
  rw [encode, decode_reverse, LittleEndian.decode_encode h]

theorem decode_encodeInt (k : ℕ) (n : ℤ) :
  (decode (encodeInt k n) : ℤ) = n % 256 ^ k
  := by
  rw [encodeInt, decode_reverse, LittleEndian.decode_encodeInt]

/-- An integer is read back up to its residue. -/
theorem bmod_decode_encodeInt (k : ℕ) (n : ℤ) :
  (decode (encodeInt k n) : ℤ).bmod (256 ^ k) = n.bmod (256 ^ k)
  := by
  rw [encodeInt, decode_reverse, LittleEndian.bmod_decode_encodeInt]

theorem encode_littleEndian_of_lt {k n : ℕ} (h : n < 256 ^ k) :
  LittleEndian.encode (k + 1) n = LittleEndian.encode k n ++ [0]
  := by
  induction k generalizing n with
  | zero =>
      rw [Nat.lt_one_iff.mp h]
      rfl
  | succ k ih =>
      have hdiv : n / 256 < 256 ^ k := by
        rw [Nat.pow_succ] at h
        exact Nat.div_lt_of_lt_mul (Nat.mul_comm _ _ ▸ h)
      rw [LittleEndian.encode, ih hdiv]
      rfl

/-- A number that fits fewer bytes begins with a zero. -/
theorem encode_succ_of_lt {k n : ℕ} (h : n < 256 ^ k) :
  encode (k + 1) n = 0 :: encode k n
  := by
  rw [encode, encode_littleEndian_of_lt h, List.reverse_append]
  rfl

end BigEndian
