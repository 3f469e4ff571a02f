import Mathlib.Data.Nat.Notation
import Mathlib.Logic.Function.Basic

/-!
# Words

Operations on the bits of words that can be undone: words of 32 bits are put together from bytes and taken
apart, rotated, and two words exchange the bits that a mask selects (`exchange_exchange`).
-/

namespace Words

/-! ### Bytes -/

/-- The word of four bytes, the most significant first. -/
def ofBytes (b₀ b₁ b₂ b₃ : UInt8) : BitVec 32 :=
  (b₀.toBitVec.setWidth 32 <<< 24) ||| (b₁.toBitVec.setWidth 32 <<< 16) |||
    (b₂.toBitVec.setWidth 32 <<< 8) ||| b₃.toBitVec.setWidth 32

/-- The byte of a word above its `n` least significant bits. -/
def byte (x : BitVec 32) (n : ℕ) : UInt8 :=
  UInt8.ofBitVec ((x >>> n).setWidth 8)

theorem byte_toBitVec_getLsbD (x : BitVec 32) (n i : ℕ) :
  (byte x n).toBitVec.getLsbD i = (decide (i < 8) && x.getLsbD (n + i))
  := by rw [byte, BitVec.getLsbD_setWidth, BitVec.getLsbD_ushiftRight]

/-- A bit of a word that is put together. -/
theorem ofBytes_getLsbD (b₀ b₁ b₂ b₃ : UInt8) {i : ℕ} (h : i < 32) :
  (ofBytes b₀ b₁ b₂ b₃).getLsbD i =
    if i < 8 then b₃.toBitVec.getLsbD i
    else if i < 16 then b₂.toBitVec.getLsbD (i - 8)
    else if i < 24 then b₁.toBitVec.getLsbD (i - 16)
    else b₀.toBitVec.getLsbD (i - 24)
  := by
  have hhigh : ∀ (b : UInt8) (j : ℕ), 8 ≤ j → b.toBitVec.getLsbD j = false :=
    fun b j hj => BitVec.getLsbD_of_ge _ _ hj
  unfold ofBytes
  simp only [BitVec.getLsbD_or, BitVec.getLsbD_shiftLeft, BitVec.getLsbD_setWidth]
  split
  · next h8 => simp [h, h8, show i < 16 by omega, show i < 24 by omega]
  · next h8 =>
      split
      · next h16 => simp [h, h8, h16, show i < 24 by omega, hhigh b₃ i (by omega), show i - 8 < 32 by omega]
      · next h16 =>
          split
          · next h24 =>
              simp [h, h8, h16, h24, hhigh b₃ i (by omega), hhigh b₂ (i - 8) (by omega),
                show i - 16 < 32 by omega]
          · next h24 =>
              simp [h, h8, h16, h24, hhigh b₃ i (by omega), hhigh b₂ (i - 8) (by omega),
                hhigh b₁ (i - 16) (by omega), show i - 24 < 32 by omega]

/-- A word is put together from its bytes. -/
theorem ofBytes_byte (x : BitVec 32) :
  ofBytes (byte x 24) (byte x 16) (byte x 8) (byte x 0) = x
  := by
  apply BitVec.eq_of_getLsbD_eq
  intro i hi
  rw [ofBytes_getLsbD _ _ _ _ hi]
  simp only [byte_toBitVec_getLsbD]
  split
  · next h8 => simp [h8]
  · next h8 =>
      split
      · next h16 => simp [show i - 8 < 8 by omega, show 8 + (i - 8) = i by omega]
      · next h16 =>
          split
          · next h24 => simp [show i - 16 < 8 by omega, show 16 + (i - 16) = i by omega]
          · next h24 => simp [show i - 24 < 8 by omega, show 24 + (i - 24) = i by omega]

/-- A word is taken apart into the bytes it is put together from. -/
theorem byte_ofBytes (b₀ b₁ b₂ b₃ : UInt8) :
  byte (ofBytes b₀ b₁ b₂ b₃) 24 = b₀ ∧ byte (ofBytes b₀ b₁ b₂ b₃) 16 = b₁ ∧
    byte (ofBytes b₀ b₁ b₂ b₃) 8 = b₂ ∧ byte (ofBytes b₀ b₁ b₂ b₃) 0 = b₃
  := by
  have hext : ∀ (b : UInt8) (n : ℕ), n ≤ 24 →
      (∀ i < 8, (ofBytes b₀ b₁ b₂ b₃).getLsbD (n + i) = b.toBitVec.getLsbD i) →
      byte (ofBytes b₀ b₁ b₂ b₃) n = b := by
    intro b n hn hbits
    apply UInt8.toBitVec_inj.mp
    apply BitVec.eq_of_getLsbD_eq
    intro i hi
    rw [byte_toBitVec_getLsbD, hbits i hi, decide_eq_true hi, Bool.true_and]
  refine ⟨?_, ?_, ?_, ?_⟩
  · apply hext _ _ (by omega)
    intro i hi
    rw [ofBytes_getLsbD _ _ _ _ (by omega), if_neg (by omega), if_neg (by omega), if_neg (by omega),
      Nat.add_sub_cancel_left]
  · apply hext _ _ (by omega)
    intro i hi
    rw [ofBytes_getLsbD _ _ _ _ (by omega), if_neg (by omega), if_neg (by omega), if_pos (by omega),
      Nat.add_sub_cancel_left]
  · apply hext _ _ (by omega)
    intro i hi
    rw [ofBytes_getLsbD _ _ _ _ (by omega), if_neg (by omega), if_pos (by omega),
      Nat.add_sub_cancel_left]
  · apply hext _ _ (by omega)
    intro i hi
    rw [ofBytes_getLsbD _ _ _ _ (by omega), if_pos (by omega), Nat.zero_add]

/-! ### Exchanging bits -/

section Exchange

variable {w : ℕ}

/-- The bits of the first word that stand `n` above those in the mask are exchanged with these of the second
word. -/
def exchange (n : ℕ) (m : BitVec w) (p : BitVec w × BitVec w) : BitVec w × BitVec w :=
  let t := ((p.1 >>> n) ^^^ p.2) &&& m
  (p.1 ^^^ (t <<< n), p.2 ^^^ t)

/-- What the mask leaves of a word can be shifted there and back. -/
theorem shift_and {n : ℕ} {m : BitVec w} (h : (m <<< n) >>> n = m) (x : BitVec w) :
  ((x &&& m) <<< n) >>> n = x &&& m
  := by
  apply BitVec.eq_of_getLsbD_eq
  intro i hi
  have hbit := congrArg (fun y => y.getLsbD i) h
  simp only [BitVec.getLsbD_ushiftRight, BitVec.getLsbD_shiftLeft, BitVec.getLsbD_and,
    Nat.add_sub_cancel_left] at hbit ⊢
  cases hm : m.getLsbD i with
  | false => rw [Bool.and_false, Bool.and_false]
  | true =>
      rw [hm, Bool.and_true] at hbit
      rw [hbit, Bool.true_and]

theorem xor_xor_cancel (x y t : BitVec w) :
  (x ^^^ t) ^^^ (y ^^^ t) = x ^^^ y
  := by
  rw [BitVec.xor_comm y t, BitVec.xor_assoc, ← BitVec.xor_assoc t t y, BitVec.xor_self, BitVec.zero_xor]

theorem xor_cancel (x t : BitVec w) :
  (x ^^^ t) ^^^ t = x
  := by rw [BitVec.xor_assoc, BitVec.xor_self, BitVec.xor_zero]

/-- Exchanging bits twice changes nothing. -/
theorem exchange_exchange {n : ℕ} {m : BitVec w} (h : (m <<< n) >>> n = m) (p : BitVec w × BitVec w) :
  exchange n m (exchange n m p) = p
  := by
  have hsame : ∀ t, t = ((p.1 >>> n) ^^^ p.2) &&& m →
      (((p.1 ^^^ (t <<< n)) >>> n) ^^^ (p.2 ^^^ t)) &&& m = t := by
    rintro t rfl
    rw [BitVec.ushiftRight_xor_distrib, shift_and h, xor_xor_cancel]
  unfold exchange
  dsimp only
  rw [hsame _ rfl, xor_cancel, xor_cancel]

end Exchange

/-! ### Rotations -/

theorem rotateRight_rotateLeft {w r : ℕ} (h : r < w) (x : BitVec w) :
  (x.rotateLeft r).rotateRight r = x
  := by
  apply BitVec.eq_of_getLsbD_eq
  intro i hi
  rw [BitVec.getLsbD_rotateRight_of_lt h]
  by_cases hlt : i < w - r
  · rw [decide_eq_true hlt, cond_true, BitVec.getLsbD_rotateLeft_of_le h,
      decide_eq_false (show ¬ r + i < r by omega), cond_false, decide_eq_true (show r + i < w by omega),
      Bool.true_and, Nat.add_sub_cancel_left]
  · rw [decide_eq_false hlt, cond_false, decide_eq_true hi, Bool.true_and,
      BitVec.getLsbD_rotateLeft_of_le h, decide_eq_true (show i - (w - r) < r by omega), cond_true,
      show w - r + (i - (w - r)) = i by omega]

theorem rotateLeft_rotateRight {w r : ℕ} (h : r < w) (x : BitVec w) :
  (x.rotateRight r).rotateLeft r = x
  := by
  apply BitVec.eq_of_getLsbD_eq
  intro i hi
  rw [BitVec.getLsbD_rotateLeft_of_le h]
  by_cases hlt : i < r
  · rw [decide_eq_true hlt, cond_true, BitVec.getLsbD_rotateRight_of_lt h,
      decide_eq_false (show ¬ w - r + i < w - r by omega), cond_false,
      decide_eq_true (show w - r + i < w by omega), Bool.true_and, Nat.add_sub_cancel_left]
  · rw [decide_eq_false hlt, cond_false, decide_eq_true hi, Bool.true_and,
      BitVec.getLsbD_rotateRight_of_lt h, decide_eq_true (show i - r < w - r by omega), cond_true,
      show r + (i - r) = i by omega]

end Words
