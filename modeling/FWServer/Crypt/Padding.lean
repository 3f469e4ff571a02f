import FWServer.Crypt.RoundTrip
import Mathlib.Data.List.Induction

/-!
# Decryption of what has not been encrypted

`ldesdecode` looks for the padding from the end of the decrypted text on.  Its counter is an `int` that is compared
with a size, and so does not stop at the beginning of the text: a text of a single block that is decrypted to zeros
is read before its beginning.  Any other text of less than 2 GB is refused, or is what its message is encrypted to.
-/

namespace Crypt

/-! ### What is read -/

/-- The places of the buffer that the loop of `scan` reads. -/
def reads (buffer : List UInt8) : ℕ → List ℤ
  | 0 => [-1]
  | i + 1 =>
      if buffer.length - 8 ≤ i then
        if buffer.getD i 0 = 0 then (i : ℤ) :: reads buffer i
        else [(i : ℤ)]
      else []

/-- The places of the decrypted text that `ldesdecode` reads while it looks for the padding. -/
def ldesdecodeReads (key text : List UInt8) : List ℤ :=
  if text.length % 8 ≠ 0 ∨ text.length = 0 then []
  else reads (crypt_blocks (reversed (des_main_ks key)) (text.length / 8) text) text.length

/-- A text is decrypted without reading anything else than the decrypted text, and is refused or is what the message
is encrypted to. -/
structure Safe (key text : List UInt8) : Prop where
  reads : ∀ i ∈ ldesdecodeReads key text, 0 ≤ i ∧ i < text.length
  returns : (∃ message, ldesdecode key text = .error (.error message)) ∨
    ∃ msg, ldesdecode key text = .ok msg ∧ ldesencode key msg = .ok text

theorem reads_inside {buffer : List UInt8} {n padding : ℕ} (hn : n ≤ buffer.length)
    (h : scan buffer n padding ≠ .error .undefined) :
  ∀ i ∈ reads buffer n, 0 ≤ i ∧ i < buffer.length
  := by
  induction n generalizing padding with
  | zero => exact absurd rfl h
  | succ n ih =>
      intro i hi
      rw [scan] at h
      rw [reads] at hi
      have hplace : (0 : ℤ) ≤ n ∧ (n : ℤ) < buffer.length := by omega
      split at hi
      · next hlast =>
          rw [if_pos hlast] at h
          split at hi
          · next hzero =>
              rw [if_pos hzero] at h
              rcases List.mem_cons.mp hi with rfl | hi
              · exact hplace
              · apply ih (by omega) h i hi
          · rw [List.mem_singleton.mp hi]
            exact hplace
      · cases hi

/-! ### Where the padding begins -/

/-- What the loop may find: a byte that does not belong to a padding; the mark, with zeros behind it; no mark in the
last block; or nothing but zeros in a single block. -/
inductive Scanned (buffer : List UInt8) : Except Fault ℕ → Prop
  | invalid : Scanned buffer (.error (.error "Invalid des crypt text"))
  | marked {text : List UInt8} {z : ℕ} : buffer = text ++ 0x80 :: List.replicate z 0 → z ≤ 7 →
      Scanned buffer (.ok (1 + z))
  | unmarked {padding : ℕ} : 8 < padding → Scanned buffer (.ok padding)
  | zeros : buffer = List.replicate buffer.length 0 → buffer.length ≤ 8 → Scanned buffer (.error .undefined)

/-- What the loop finds when it has passed `z` zeros. -/
theorem scanned (text : List UInt8) {z : ℕ} (hz : z ≤ 8) :
  Scanned (text ++ List.replicate z 0) (scan (text ++ List.replicate z 0) text.length (1 + z))
  := by
  induction text using List.reverseRecOn generalizing z with
  | nil =>
      apply Scanned.zeros
      · rw [List.nil_append, List.length_replicate]
      · rw [List.nil_append, List.length_replicate]
        exact hz
  | append_singleton text b ih =>
      have hlength : (text ++ [b] ++ List.replicate z 0).length = text.length + 1 + z := by
        rw [List.length_append, List.length_append, List.length_replicate, List.length_singleton]
      have hget : (text ++ [b] ++ List.replicate z 0).getD text.length 0 = b := by
        rw [List.append_assoc, List.getD_append_right _ _ _ _ (Nat.le_refl _), Nat.sub_self]
        rfl
      rw [List.length_append, List.length_singleton, scan, hget, hlength]
      split
      · next hlast =>
          split
          · next hzero =>
              have hmore : text ++ [b] ++ List.replicate z 0 = text ++ List.replicate (z + 1) 0 := by
                rw [List.append_assoc, hzero]
                rfl
              rw [hmore, Nat.add_assoc]
              apply ih
              omega
          · split
            · next hmark =>
                have hmarked : text ++ [b] ++ List.replicate z 0 = text ++ 0x80 :: List.replicate z 0 := by
                  rw [List.append_assoc, hmark]
                  rfl
                apply Scanned.marked hmarked
                omega
            · apply Scanned.invalid
      · next hpassed =>
          apply Scanned.unmarked
          omega

/-! ### What is decrypted to a padded message -/

theorem pairs_reversed_reversed (SK : Schedule) :
  (pairs (reversed SK)).reverse = pairs SK
  := by rw [pairs_reversed, List.reverse_reverse]

/-- A block that is decrypted is encrypted to what it was. -/
theorem des_crypt_des_crypt_reversed (SK : Schedule) {input : List UInt8} (h : input.length = 8) :
  des_crypt SK (des_crypt (reversed SK) input) = input
  := by
  have hundo := Feistel.rounds_reverse mix Words.xor_cancel (pairs (reversed SK)) (DES_IP (words input))
  rw [pairs_reversed_reversed, ← DES_ROUNDS_eq, ← DES_ROUNDS_eq] at hundo
  rw [des_crypt_eq, des_crypt_eq (reversed SK), words_bytes, DES_IP_DES_FP, hundo, Prod.swap_swap, DES_FP_DES_IP,
    bytes_words h]

/-- Blocks that are decrypted are encrypted to what they were. -/
theorem blocks_decrypted (SK : Schedule) {text : List UInt8} (h : text.length % 8 = 0) :
  Feistel.blocks 8 (des_crypt SK) (text.length / 8) (crypt_blocks (reversed SK) (text.length / 8) text) = text
  := by
  apply Feistel.blocks_blocks
  · exact fun b _ => length_des_crypt (reversed SK) b
  · exact fun b hb => des_crypt_des_crypt_reversed SK hb
  · omega

theorem length_decrypted (SK : Schedule) {text : List UInt8} (h : text.length % 8 = 0) :
  (crypt_blocks (reversed SK) (text.length / 8) text).length = text.length
  := by
  unfold crypt_blocks
  rw [Feistel.length_blocks (fun b _ => length_des_crypt (reversed SK) b) (by omega)]
  omega

/-- A single block is decrypted to zeros precisely when zeros are encrypted to it. -/
theorem decrypted_zeros_iff (SK : Schedule) {text : List UInt8} (h : text.length = 8) :
  crypt_blocks (reversed SK) (text.length / 8) text = List.replicate 8 0 ↔
    text = des_crypt SK (List.replicate 8 0)
  := by
  have hone : crypt_blocks (reversed SK) (text.length / 8) text = des_crypt (reversed SK) text := by
    rw [h]
    apply (List.append_nil _).trans
    rw [List.take_of_length_le (Nat.le_of_eq h)]
  rw [hone]
  constructor
  · intro hzeros
    rw [← hzeros, des_crypt_des_crypt_reversed SK h]
  · rintro rfl
    apply des_crypt_reversed SK
    rfl

/-- What `ldesdecode` does with whole blocks. -/
theorem ldesdecode_blocks {key : List UInt8} (hkey : key.length = 8) (text : List UInt8)
    (hblocks : text.length % 8 = 0) (hpos : text.length ≠ 0) (hlt : text.length < 2 ^ 31) :
  ldesdecode key text =
    (scan (crypt_blocks (reversed (des_main_ks key)) (text.length / 8) text) text.length 1).bind fun padding =>
      if padding > 8 then .error (.error "Invalid des crypt text")
      else .ok ((crypt_blocks (reversed (des_main_ks key)) (text.length / 8) text).take (text.length - padding))
  := by
  unfold ldesdecode
  rw [des_key_of_length hkey]
  dsimp only [bind, Except.bind]
  rw [if_neg (not_or.mpr ⟨not_not.mpr hblocks, hpos⟩), if_neg (Nat.not_le.mpr hlt)]

/-- A text that is decrypted to a padded message is what the message is encrypted to. -/
theorem encrypt_decrypted {key text msg : List UInt8} {z : ℕ} (hkey : key.length = 8)
    (hblocks : text.length % 8 = 0) (hlt : text.length < 2 ^ 31) (hz : z ≤ 7)
    (h : crypt_blocks (reversed (des_main_ks key)) (text.length / 8) text = msg ++ 0x80 :: List.replicate z 0) :
  ldesencode key msg = .ok text
  := by
  have hlength := length_decrypted (des_main_ks key) hblocks
  rw [h, List.length_append, List.length_cons, List.length_replicate] at hlength
  have hpadded : padded msg = msg ++ 0x80 :: List.replicate z 0 := by
    rw [padded, show 7 - msg.length % 8 = z by omega]
  have hcount : msg.length / 8 + 1 = text.length / 8 := by omega
  rw [ldesencode_eq hkey (by omega), hpadded, hcount, ← h, blocks_decrypted (des_main_ks key) hblocks]

/-- A text whose length is refused is decrypted safely. -/
theorem safe_of_refused {key text : List UInt8} (hkey : key.length = 8)
    (h : text.length % 8 ≠ 0 ∨ text.length = 0) :
  Safe key text
  := by
  constructor
  · rw [ldesdecodeReads, if_pos h]
    exact nofun
  · left
    unfold ldesdecode
    rw [des_key_of_length hkey]
    dsimp only [bind, Except.bind]
    rw [if_pos h]
    exact ⟨_, rfl⟩

/-- Whole blocks are decrypted safely unless the loop runs out of them. -/
theorem safe_of_scan {key text : List UInt8} (hkey : key.length = 8) (hblocks : text.length % 8 = 0)
    (hpos : text.length ≠ 0) (hlt : text.length < 2 ^ 31)
    (hscan : scan (crypt_blocks (reversed (des_main_ks key)) (text.length / 8) text) text.length 1 ≠
      .error .undefined) :
  Safe key text
  := by
  have hlength := length_decrypted (des_main_ks key) hblocks
  constructor
  · rw [ldesdecodeReads, if_neg (not_or.mpr ⟨not_not.mpr hblocks, hpos⟩)]
    have hinside := reads_inside (Nat.le_of_eq hlength.symm) hscan
    rw [hlength] at hinside
    exact hinside
  · have hencrypt : ∀ msg z, z ≤ 7 →
        crypt_blocks (reversed (des_main_ks key)) (text.length / 8) text = msg ++ 0x80 :: List.replicate z 0 →
        ldesencode key msg = .ok text :=
      fun _ _ => encrypt_decrypted hkey hblocks hlt
    rw [ldesdecode_blocks hkey text hblocks hpos hlt]
    generalize crypt_blocks (reversed (des_main_ks key)) (text.length / 8) text = buffer at hlength hscan hencrypt ⊢
    have hscanned := scanned buffer (Nat.zero_le 8)
    rw [List.replicate_zero, List.append_nil, hlength, Nat.add_zero] at hscanned
    generalize scan buffer text.length 1 = r at hscan hscanned ⊢
    cases hscanned with
    | invalid => exact .inl ⟨_, rfl⟩
    | @marked msg z hmarked hz =>
        right
        use msg
        constructor
        · have htake : buffer.take (text.length - (1 + z)) = msg := by
            rw [← hlength, hmarked]
            apply List.take_left'
            rw [List.length_append, List.length_cons, List.length_replicate]
            omega
          rw [Except.bind, if_neg (by omega), htake]
        · apply hencrypt msg z hz hmarked
    | unmarked hlate =>
        left
        rw [Except.bind, if_pos hlate]
        exact ⟨_, rfl⟩
    | zeros => exact absurd rfl hscan

/-- A block of zeros has no beginning. -/
theorem scan_zeros :
  scan (List.replicate 8 0) 8 1 = .error .undefined
  := rfl

/-- The loop runs out of the blocks only when there is one, of zeros. -/
theorem scan_eq_undefined {buffer : List UInt8} (hblocks : buffer.length % 8 = 0) (hpos : buffer.length ≠ 0)
    (h : scan buffer buffer.length 1 = .error .undefined) :
  buffer = List.replicate 8 0
  := by
  have hscanned := scanned buffer (Nat.zero_le 8)
  rw [List.replicate_zero, List.append_nil, h] at hscanned
  cases hscanned with
  | zeros hzeros hle =>
      rw [hzeros, show buffer.length = 8 by omega]

/-- Under every key of 8 bytes, a text is decrypted safely unless it is the block that zeros are encrypted to, or whole
blocks of 2 GB or more. -/
theorem decrypt_safe_iff (key text : List UInt8) (hkey : key.length = 8) :
  Safe key text ↔
    text ≠ des_crypt (des_main_ks key) (List.replicate 8 0) ∧ (text.length % 8 = 0 → text.length < 2 ^ 31)
  := by
  constructor
  · intro h
    constructor
    · intro htext
      have hlength : text.length = 8 := by
        rw [htext]
        apply length_des_crypt
      have hzeros := (decrypted_zeros_iff (des_main_ks key) hlength).mpr htext
      have hdecode := ldesdecode_blocks hkey text (by omega) (by omega) (by omega)
      rw [hzeros, hlength, scan_zeros] at hdecode
      have hreturns := h.returns
      rw [hdecode] at hreturns
      rcases hreturns with ⟨_, ⟨⟩⟩ | ⟨_, ⟨⟩, _⟩
    · intro hblocks
      by_contra hge
      have hreturns := h.returns
      unfold ldesdecode at hreturns
      rw [des_key_of_length hkey] at hreturns
      dsimp only [bind, Except.bind] at hreturns
      rw [if_neg (by omega), if_pos (by omega)] at hreturns
      rcases hreturns with ⟨_, ⟨⟩⟩ | ⟨_, ⟨⟩, _⟩
  · rintro ⟨hzeros, hlt⟩
    by_cases hrefused : text.length % 8 ≠ 0 ∨ text.length = 0
    · exact safe_of_refused hkey hrefused
    · obtain ⟨hblocks, hpos⟩ := not_or.mp hrefused
      rw [not_not] at hblocks
      have hlength := length_decrypted (des_main_ks key) hblocks
      apply safe_of_scan hkey hblocks hpos (hlt hblocks)
      intro hscan
      apply hzeros
      rw [← hlength] at hblocks hpos
      have hbuffer := scan_eq_undefined hblocks hpos (by rw [hlength, hscan])
      have hone : text.length = 8 := by
        rw [← hlength, hbuffer, List.length_replicate]
      apply (decrypted_zeros_iff (des_main_ks key) hone).mp hbuffer

theorem decrypt_safe_one_block :
  Safe [1, 2, 3, 4, 5, 6, 7, 8] [0, 0, 0, 0, 0, 0, 0, 0]
  := by
  apply (decrypt_safe_iff [1, 2, 3, 4, 5, 6, 7, 8] [0, 0, 0, 0, 0, 0, 0, 0] rfl).mpr
  constructor
  · decide +kernel
  · decide

/-- The block that zeros are encrypted to under the key of the handshake is read before its beginning. -/
theorem zeros_read_before :
  lhashkey lgethandshakekey = [72, 15, 109, 221, 50, 66, 254, 19] ∧
  -1 ∈ ldesdecodeReads [72, 15, 109, 221, 50, 66, 254, 19] [78, 221, 90, 51, 175, 197, 233, 25] ∧
  ¬ Safe [72, 15, 109, 221, 50, 66, 254, 19] [78, 221, 90, 51, 175, 197, 233, 25]
  := by
  have hread : -1 ∈ ldesdecodeReads [72, 15, 109, 221, 50, 66, 254, 19] [78, 221, 90, 51, 175, 197, 233, 25] := by
    decide +kernel
  refine ⟨by decide +kernel, hread, ?_⟩
  intro h
  have hinside := h.reads (-1) hread
  omega

end Crypt
