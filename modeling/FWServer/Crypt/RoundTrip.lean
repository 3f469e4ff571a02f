import FWServer.Crypt.Des
import Mathlib.Data.Prod.Basic

/-!
# Decryption undoes encryption

The permutations at the two ends of `des_crypt` exchange bits and rotate, and undo each other; its rounds are
those of a Feistel network.  So `des_crypt` is undone by the schedule in reverse order, whatever the key, and
a message of less than 2 GB is recovered with its length, as its padding begins at the last byte that is not
zero (`decrypt_encrypt`).
-/

namespace Crypt

/-! ### The permutations -/

theorem rotateLeft_one (x : BitVec 32) :
  ((x <<< 1) ||| (x >>> 31)) &&& 0xFFFFFFFF = x.rotateLeft 1
  := by
  have hones : (0xFFFFFFFF : BitVec 32) = BitVec.allOnes 32 := by decide
  rw [hones, BitVec.and_allOnes, BitVec.rotateLeft_def]

theorem rotateRight_one (x : BitVec 32) :
  ((x <<< 31) ||| (x >>> 1)) &&& 0xFFFFFFFF = x.rotateRight 1
  := by
  have hones : (0xFFFFFFFF : BitVec 32) = BitVec.allOnes 32 := by decide
  rw [hones, BitVec.and_allOnes, BitVec.rotateRight_def, BitVec.or_comm]

/-- `exchange` with the halves in the other order. -/
def exchangeSwap (n : ℕ) (m : BitVec 32) (p : BitVec 32 × BitVec 32) : BitVec 32 × BitVec 32 :=
  (Words.exchange n m p.swap).swap

theorem DES_IP_eq (p : BitVec 32 × BitVec 32) :
  DES_IP p =
    let q := exchangeSwap 8 0x00FF00FF (exchangeSwap 2 0x33333333
      (Words.exchange 16 0x0000FFFF (Words.exchange 4 0x0F0F0F0F p)))
    let q := Words.exchange 0 0xAAAAAAAA (q.1, q.2.rotateLeft 1)
    (q.1.rotateLeft 1, q.2)
  := by
  simp only [DES_IP, rotateLeft_one]
  simp only [exchangeSwap, Words.exchange, Prod.swap_prod_mk, BitVec.ushiftRight_zero, BitVec.shiftLeft_zero]

theorem DES_FP_eq (p : BitVec 32 × BitVec 32) :
  DES_FP p =
    let q := Words.exchange 0 0xAAAAAAAA (p.1.rotateRight 1, p.2)
    Words.exchange 4 0x0F0F0F0F (Words.exchange 16 0x0000FFFF
      (exchangeSwap 2 0x33333333 (exchangeSwap 8 0x00FF00FF (q.1, q.2.rotateRight 1))))
  := by
  simp only [DES_FP, rotateRight_one]
  simp only [exchangeSwap, Words.exchange, Prod.swap_prod_mk, BitVec.ushiftRight_zero, BitVec.shiftLeft_zero]

theorem exchangeSwap_exchangeSwap {n : ℕ} {m : BitVec 32} (h : (m <<< n) >>> n = m)
    (p : BitVec 32 × BitVec 32) :
  exchangeSwap n m (exchangeSwap n m p) = p
  := by rw [exchangeSwap, exchangeSwap, Prod.swap_swap, Words.exchange_exchange h, Prod.swap_swap]

theorem DES_FP_DES_IP (p : BitVec 32 × BitVec 32) :
  DES_FP (DES_IP p) = p
  := by
  rw [DES_IP_eq, DES_FP_eq]
  dsimp only
  rw [Words.rotateRight_rotateLeft (by decide), Prod.mk.eta, Words.exchange_exchange (by decide)]
  dsimp only
  rw [Words.rotateRight_rotateLeft (by decide), Prod.mk.eta, exchangeSwap_exchangeSwap (by decide),
    exchangeSwap_exchangeSwap (by decide), Words.exchange_exchange (by decide),
    Words.exchange_exchange (by decide)]

theorem DES_IP_DES_FP (p : BitVec 32 × BitVec 32) :
  DES_IP (DES_FP p) = p
  := by
  rw [DES_FP_eq, DES_IP_eq]
  dsimp only
  rw [Words.exchange_exchange (by decide), Words.exchange_exchange (by decide),
    exchangeSwap_exchangeSwap (by decide), exchangeSwap_exchangeSwap (by decide)]
  dsimp only
  rw [Words.rotateLeft_rotateRight (by decide), Prod.mk.eta, Words.exchange_exchange (by decide)]
  dsimp only
  rw [Words.rotateLeft_rotateRight (by decide)]

/-! ### The rounds -/

/-- What a round mixes into a half. -/
def mix (k : BitVec 32 × BitVec 32) (X : BitVec 32) : BitVec 32 :=
  let T := k.1 ^^^ X
  let T' := k.2 ^^^ ((X <<< 28) ||| (X >>> 4))
  (entry SB8 T ^^^ entry SB6 (T >>> 8) ^^^ entry SB4 (T >>> 16) ^^^ entry SB2 (T >>> 24)) ^^^
    (entry SB7 T' ^^^ entry SB5 (T' >>> 8) ^^^ entry SB3 (T' >>> 16) ^^^ entry SB1 (T' >>> 24))

/-- The words of a schedule two by two. -/
def pairs (SK : Schedule) : List (BitVec 32 × BitVec 32) :=
  (List.range 16).map fun i => (SK (2 * i), SK (2 * i + 1))

theorem DES_ROUND_eq (SK : Schedule) (i : ℕ) (X Y : BitVec 32) :
  DES_ROUND SK i X Y = Y ^^^ mix (SK i, SK (i + 1)) X
  := by
  unfold DES_ROUND mix
  dsimp only
  rw [BitVec.xor_assoc Y]

/-- The rounds in their pairs are rounds of a network. -/
theorem foldl_rounds (SK : Schedule) (is : List ℕ) (p : BitVec 32 × BitVec 32) :
  is.foldl
      (fun (X, Y) i =>
        let X := DES_ROUND SK (4 * i) Y X
        let Y := DES_ROUND SK (4 * i + 2) X Y
        (X, Y)) p =
    Feistel.rounds (fun x t => x ^^^ t) mix
      (is.flatMap fun i => [(SK (4 * i), SK (4 * i + 1)), (SK (4 * i + 2), SK (4 * i + 3))]) p
  := by
  induction is generalizing p with
  | nil => rfl
  | cons i is ih =>
      rw [List.foldl_cons, ih, List.flatMap_cons, Feistel.rounds_append]
      simp only [DES_ROUND_eq]
      rfl

theorem DES_ROUNDS_eq (SK : Schedule) (p : BitVec 32 × BitVec 32) :
  DES_ROUNDS SK p = Feistel.rounds (fun x t => x ^^^ t) mix (pairs SK) p
  := foldl_rounds SK (List.range 8) p

/-- The schedule of the decryption has the pairs in reverse order. -/
theorem pairs_reversed (ESK : Schedule) :
  pairs (reversed ESK) = (pairs ESK).reverse
  := rfl

/-! ### Blocks -/

/-- The two words of a block. -/
def words (input : List UInt8) : BitVec 32 × BitVec 32 :=
  (GET_UINT32 input 0, GET_UINT32 input 4)

/-- The block of two words. -/
def bytes (p : BitVec 32 × BitVec 32) : List UInt8 :=
  PUT_UINT32 p.1 ++ PUT_UINT32 p.2

theorem words_bytes (p : BitVec 32 × BitVec 32) :
  words (bytes p) = p
  := by
  apply Prod.ext
  · apply Words.ofBytes_byte
  · apply Words.ofBytes_byte

theorem bytes_words {input : List UInt8} (h : input.length = 8) :
  bytes (words input) = input
  := by
  match input, h with
  | [b₀, b₁, b₂, b₃, b₄, b₅, b₆, b₇], _ =>
      have hleft := Words.byte_ofBytes b₀ b₁ b₂ b₃
      have hright := Words.byte_ofBytes b₄ b₅ b₆ b₇
      simp only [bytes, words, GET_UINT32, PUT_UINT32, List.getD_cons_zero, List.getD_cons_succ, hleft,
        hright, List.cons_append, List.nil_append]

theorem des_crypt_eq (SK : Schedule) (input : List UInt8) :
  des_crypt SK input = bytes (DES_FP (DES_ROUNDS SK (DES_IP (words input))).swap)
  := rfl

theorem length_des_crypt (SK : Schedule) (input : List UInt8) :
  (des_crypt SK input).length = 8
  := rfl

/-- A block is decrypted by the schedule in reverse order. -/
theorem des_crypt_reversed (SK : Schedule) {input : List UInt8} (h : input.length = 8) :
  des_crypt (reversed SK) (des_crypt SK input) = input
  := by
  have hundo := Feistel.rounds_reverse mix Words.xor_cancel (pairs SK) (DES_IP (words input))
  rw [← pairs_reversed, ← DES_ROUNDS_eq, ← DES_ROUNDS_eq] at hundo
  rw [des_crypt_eq, des_crypt_eq SK, words_bytes, DES_IP_DES_FP, hundo, Prod.swap_swap, DES_FP_DES_IP,
    bytes_words h]

/-! ### The padding -/

/-- The bytes of a text that are left for the last block, with the padding. -/
theorem fillTail_eq (text rest : List UInt8) (h : rest.length < 8) :
  fillTail (text ++ rest) text.length rest.length = rest ++ 0x80 :: List.replicate (7 - rest.length) 0
  := by
  apply List.ext_getElem
  · rw [fillTail, List.length_map, List.length_range, List.length_append, List.length_cons,
      List.length_replicate]
    omega
  · intro j _ hj
    rw [List.length_append, List.length_cons, List.length_replicate] at hj
    simp only [fillTail, List.getElem_map, List.getElem_range, Int.ofNat_lt, Int.natCast_inj]
    split
    · next hlt =>
        have hright : text.length ≤ text.length + j := Nat.le_add_right _ _
        rw [List.getElem_append_left hlt, List.getD_append_right _ _ _ _ hright, Nat.add_sub_cancel_left,
          List.getD_eq_getElem _ _ hlt]
    · next hge =>
        rw [List.getElem_append_right (Nat.le_of_not_lt hge), List.getElem_cons]
        split
        · next heq => rw [dif_pos (by omega)]
        · next hne => rw [dif_neg (by omega), List.getElem_replicate]

/-- The padding is found behind the text. -/
theorem scan_padded (text : List UInt8) {z j : ℕ} (hz : z ≤ 7) (hj : j ≤ z) (padding : ℕ) :
  scan (text ++ 0x80 :: List.replicate z 0) (text.length + 1 + j) padding = .ok (padding + j)
  := by
  have hlength : (text ++ 0x80 :: List.replicate z 0).length - 8 ≤ text.length := by
    rw [List.length_append, List.length_cons, List.length_replicate]
    omega
  induction j generalizing padding with
  | zero =>
      have hmark : (text ++ 0x80 :: List.replicate z 0).getD text.length 0 = 0x80 := by
        rw [List.getD_append_right _ _ _ _ (Nat.le_refl _), Nat.sub_self]
        rfl
      rw [scan, if_pos hlength, hmark]
      rfl
  | succ j ih =>
      have hzero : (text ++ 0x80 :: List.replicate z 0).getD (text.length + 1 + j) 0 = 0 := by
        rw [List.getD_append_right _ _ _ _ (by omega), show text.length + 1 + j - text.length = j + 1 by omega,
          List.getD_cons_succ, List.getD_replicate _ (by omega)]
      rw [← Nat.add_assoc, scan, if_pos (by omega), hzero, if_pos rfl, ih (by omega), Nat.add_right_comm,
        Nat.add_assoc]

/-! ### Messages -/

/-- The text with its padding. -/
def padded (text : List UInt8) : List UInt8 :=
  text ++ 0x80 :: List.replicate (7 - text.length % 8) 0

theorem length_padded (text : List UInt8) :
  (padded text).length = (text.length / 8 + 1) * 8
  := by
  rw [padded, List.length_append, List.length_cons, List.length_replicate]
  omega

theorem toInt_of_lt {n : ℕ} (h : n < 2 ^ 31) :
  toInt n = n
  := by
  rw [toInt, Nat.mod_eq_of_lt (by omega), if_pos h]

theorem des_key_of_length {key : List UInt8} (h : key.length = 8) :
  des_key key = .ok (des_main_ks key)
  := if_neg (not_not.mpr h)

/-- A text is whole blocks and a rest. -/
theorem exists_rest (text : List UInt8) :
  ∃ init rest, text = init ++ rest ∧ init.length = text.length / 8 * 8 ∧ rest.length = text.length % 8
  := by
  use text.take (text.length / 8 * 8), text.drop (text.length / 8 * 8)
  rw [List.take_append_drop, List.length_take, List.length_drop]
  use rfl
  omega

/-- A text is encrypted as the blocks of the text with its padding. -/
theorem ldesencode_eq {key text : List UInt8} (hkey : key.length = 8) (h : text.length < 2 ^ 31) :
  ldesencode key text =
    .ok (Feistel.blocks 8 (des_crypt (des_main_ks key)) (text.length / 8 + 1) (padded text))
  := by
  obtain ⟨init, rest, hsplit, hinit, hrest⟩ := exists_rest text
  have hlt : rest.length < 8 := by omega
  have hn : ((toInt text.length - 7).toNat + 7) / 8 = text.length / 8 := by
    rw [toInt_of_lt h]
    omega
  have hplace : 8 * (text.length / 8) = init.length := by omega
  have hbytes : toInt (text.length - init.length) = rest.length := by
    rw [toInt_of_lt (by omega)]
    omega
  have htail : fillTail text init.length rest.length =
      rest ++ 0x80 :: List.replicate (7 - rest.length) 0 := by
    rw [hsplit]
    apply fillTail_eq _ _ hlt
  have hlast : (rest ++ 0x80 :: List.replicate (7 - rest.length) 0).length = 8 := by
    rw [List.length_append, List.length_cons, List.length_replicate]
    omega
  have hpadded : padded text = init ++ (rest ++ 0x80 :: List.replicate (7 - rest.length) 0) := by
    rw [padded, ← hrest, ← List.append_assoc, ← hsplit]
  have hblocks : crypt_blocks (des_main_ks key) (text.length / 8) text =
      Feistel.blocks 8 (des_crypt (des_main_ks key)) (text.length / 8) init := by
    have hadd := Feistel.blocks_add (f := des_crypt (des_main_ks key)) hinit 0 rest
    rw [← hsplit] at hadd
    exact hadd.trans (List.append_nil _)
  have hbuffer : (Feistel.blocks 8 (des_crypt (des_main_ks key)) (text.length / 8 + 1)
      (padded text)).length = (text.length + 8) / 8 * 8 := by
    rw [Feistel.length_blocks (fun b _ => length_des_crypt _ b) (Nat.le_of_eq (length_padded text).symm)]
    omega
  rw [hpadded, Feistel.blocks_succ hinit hlast] at hbuffer ⊢
  unfold ldesencode
  rw [des_key_of_length hkey]
  dsimp only [bind, Except.bind]
  rw [hn, hplace, hbytes, htail, hblocks, if_pos hbuffer]

/-- The blocks of a text with its padding are decrypted to the text. -/
theorem ldesdecode_eq {key text : List UInt8} (hkey : key.length = 8) (h : text.length < 2 ^ 31 - 8) :
  ldesdecode key (Feistel.blocks 8 (des_crypt (des_main_ks key)) (text.length / 8 + 1) (padded text)) =
    .ok text
  := by
  have hlength := length_padded text
  have hcrypt : (Feistel.blocks 8 (des_crypt (des_main_ks key)) (text.length / 8 + 1)
      (padded text)).length = (text.length / 8 + 1) * 8 :=
    Feistel.length_blocks (fun b _ => length_des_crypt _ b) (Nat.le_of_eq hlength.symm)
  have hblocks : crypt_blocks (reversed (des_main_ks key)) (text.length / 8 + 1)
      (Feistel.blocks 8 (des_crypt (des_main_ks key)) (text.length / 8 + 1) (padded text)) = padded text :=
    Feistel.blocks_blocks (fun b _ => length_des_crypt _ b) (fun b hb => des_crypt_reversed _ hb) hlength
  have hscan : scan (padded text) ((text.length / 8 + 1) * 8) 1 = .ok (1 + (7 - text.length % 8)) := by
    have hplace : (text.length / 8 + 1) * 8 = text.length + 1 + (7 - text.length % 8) := by omega
    rw [hplace]
    apply scan_padded text (by omega) (Nat.le_refl _)
  have htake : (padded text).take ((text.length / 8 + 1) * 8 - (1 + (7 - text.length % 8))) = text := by
    apply List.take_left'
    omega
  unfold ldesdecode
  rw [des_key_of_length hkey]
  dsimp only [bind, Except.bind]
  rw [hcrypt, if_neg (by omega), if_neg (by omega), Nat.mul_div_cancel _ (by omega), hblocks, hscan]
  dsimp only
  rw [if_neg (by omega), htake]

theorem length_Hash (str : List UInt8) :
  (Hash str).length = 8
  := by
  unfold Hash
  cases hashes (str.take (toInt str.length).toNat)
  rfl

/-- Under every key of 8 bytes a message of less than 2 GB is encrypted, and `ldesdecode` recovers it; so does
`cryptpack.decode` under every string, and under the key of the handshake. -/
theorem decrypt_encrypt :
  (∀ key msg : List UInt8, key.length = 8 → msg.length < 2 ^ 31 - 8 →
    ∃ text, ldesencode key msg = .ok text ∧ ldesdecode key text = .ok msg) ∧
  ∀ (key : Option (List UInt8)) (msg : List UInt8), msg.length < 2 ^ 31 - 8 →
    ∃ text, encode key msg = .ok text ∧ decode key text = .ok msg
  := by
  have hround : ∀ key msg : List UInt8, key.length = 8 → msg.length < 2 ^ 31 - 8 →
      ∃ text, ldesencode key msg = .ok text ∧ ldesdecode key text = .ok msg := by
    intro key msg hkey h
    use Feistel.blocks 8 (des_crypt (des_main_ks key)) (msg.length / 8 + 1) (padded msg)
    constructor
    · apply ldesencode_eq hkey (by omega)
    · apply ldesdecode_eq hkey h
  use hround
  intro key msg h
  apply hround (lhashkey (key.getD lgethandshakekey)) msg (length_Hash _) h

/-- A message that ends like a padding, under the key of the handshake. -/
theorem decrypt_encrypt_tail :
  ∃ text, encode none [1, 2, 3, 0x80, 0, 0, 0, 0] = .ok text ∧
    decode none text = .ok [1, 2, 3, 0x80, 0, 0, 0, 0]
  := decrypt_encrypt.2 none [1, 2, 3, 0x80, 0, 0, 0, 0] (by decide)

end Crypt
