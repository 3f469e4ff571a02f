import FWServer.Crypt.Base64

/-!
# Hexadecimal text

`ltohex` and `lfromhex` of `lualib-src/lua-crypt.c`.  The macro `HEX` takes every character that is not a decimal digit
for a letter, and what it makes of a character is compared with 16 and not with 15.  So the ten characters before `a`
and the letter `g` are taken for digits as well (`hex_exact_iff`).
-/

namespace Crypt

/-- `hex` -/
def hex : List UInt8 :=
  ascii "0123456789abcdef"

/-- The two characters that `ltohex` writes for a byte. -/
def hexPair (b : UInt8) : List UInt8 :=
  [hex.getD (b >>> 4).toNat 0, hex.getD (b &&& 0xf).toNat 0]

/-- `ltohex`.  The places `i*2` are computed by an `int`. -/
def ltohex (text : List UInt8) : Except Fault (List UInt8) :=
  if 2 ^ 30 < text.length then .error .undefined
  else .ok (text.flatMap hexPair)

/-- `HEX(v,c)`: the `v`. -/
def HEX (c : UInt8) : UInt8 :=
  if 48 ≤ c ∧ c ≤ 57 then c - 48 else c - 97 + 10

/-- The loop of `lfromhex`, with the bytes from `text[i]` on and those written so far. -/
def fromhexLoop : ℕ → List UInt8 → List UInt8 → Except Fault (List UInt8)
  | i, c :: d :: text, buffer =>
      let hi := HEX c
      let low := HEX d
      if hi > 16 ∨ low > 16 then .error (.error "Invalid hex text")
      else if 2 ^ 31 ≤ i + 2 then .error .undefined
      else fromhexLoop (i + 2) text (buffer ++ [hi <<< 4 ||| low])
  | _, _, buffer => .ok buffer

/-- `lfromhex` -/
def lfromhex (text : List UInt8) : Except Fault (List UInt8) :=
  if text.length % 2 = 1 then .error (.error s!"Invalid hex text size {toInt text.length}")
  else fromhexLoop 0 text []

/-- A text is decoded precisely when it is what a string is encoded to, that is, digits in pairs, and to this string;
else an error is raised. -/
structure Exact (t : List UInt8) : Prop where
  returns : ∀ s, lfromhex t = .ok s ↔ ltohex s = .ok t
  accepted : (∃ s, lfromhex t = .ok s) ↔ t.length % 2 = 0 ∧ ∀ c ∈ t, c ∈ hex
  raises : ∀ e, lfromhex t = .error e → ∃ message, e = .error message

/-! ### Digits -/

/-- The digits of a byte. -/
theorem HEX_hexPair (b : UInt8) :
  ∃ c d, hexPair b = [c, d] ∧ c ∈ hex ∧ d ∈ hex ∧ HEX c <<< 4 ||| HEX d = b
  := by
  refine ⟨_, _, rfl, ?_⟩
  revert b
  apply forall_byte
  decide +kernel

theorem HEX_of_mem {c : UInt8} (h : c ∈ hex) :
  ¬ HEX c > 16
  := by
  revert c
  decide +kernel

/-- The byte of two digits. -/
theorem hexPair_HEX {c d : UInt8} (hc : c ∈ hex) (hd : d ∈ hex) :
  hexPair (HEX c <<< 4 ||| HEX d) = [c, d]
  := by
  have hall : ∀ c ∈ hex, ∀ d ∈ hex, hexPair (HEX c <<< 4 ||| HEX d) = [c, d] := by decide +kernel
  exact hall c hc d hd

/-! ### The loop -/

/-- A character before the counter overflows is refused. -/
theorem fromhexLoop_refused : ∀ {t : List UInt8} {i : ℕ} (buffer : List UInt8), t.length % 2 = 0 → i % 2 = 0 →
  (∃ c ∈ t.take (2 ^ 31 - i), HEX c > 16) →
  fromhexLoop i t buffer = .error (.error "Invalid hex text")
  | [], i, buffer, _, _, ⟨c, hc, _⟩ => by
      rw [List.take_nil] at hc
      cases hc
  | [_], i, buffer, hlength, _, _ => by cases hlength
  | b :: d :: t, i, buffer, hlength, hi, ⟨c, hc, hrefused⟩ => by
      have htake : 2 ^ 31 - i = 0 ∨ 2 ^ 31 - i = (2 ^ 31 - (i + 2)) + 1 + 1 := by omega
      rw [List.length_cons, List.length_cons] at hlength
      rw [fromhexLoop]
      rcases htake with hzero | htake
      · rw [hzero, List.take_zero] at hc
        cases hc
      · rw [htake, List.take_succ_cons, List.take_succ_cons] at hc
        split
        · rfl
        · next hgood =>
            obtain ⟨hb, hd⟩ := not_or.mp hgood
            have hc : c ∈ t.take (2 ^ 31 - (i + 2)) := by
              rcases List.mem_cons.mp hc with rfl | hc
              · exact absurd hrefused hb
              · rcases List.mem_cons.mp hc with rfl | hc
                · exact absurd hrefused hd
                · exact hc
            have hmore : i + 2 < 2 ^ 31 := by
              by_contra hge
              rw [show 2 ^ 31 - (i + 2) = 0 by omega, List.take_zero] at hc
              cases hc
            rw [if_neg (by omega)]
            apply fromhexLoop_refused _ (by omega) (by omega) ⟨c, hc, hrefused⟩

/-- The counter overflows when no character is refused before. -/
theorem fromhexLoop_overflow : ∀ {t : List UInt8} {i : ℕ} (buffer : List UInt8), t.length % 2 = 0 → i % 2 = 0 →
  i < 2 ^ 31 → 2 ^ 31 ≤ i + t.length → (∀ c ∈ t.take (2 ^ 31 - i), ¬ HEX c > 16) →
  fromhexLoop i t buffer = .error .undefined
  | [], i, buffer, _, _, hlt, hlong, _ => by
      rw [List.length_nil] at hlong
      omega
  | [_], i, buffer, hlength, _, _, _, _ => by cases hlength
  | b :: d :: t, i, buffer, hlength, hi, hlt, hlong, hgood => by
      have htake : 2 ^ 31 - i = (2 ^ 31 - (i + 2)) + 1 + 1 := by omega
      rw [List.length_cons, List.length_cons] at hlength hlong
      rw [htake, List.take_succ_cons, List.take_succ_cons, List.forall_mem_cons, List.forall_mem_cons] at hgood
      obtain ⟨hb, hd, hgood⟩ := hgood
      rw [fromhexLoop]
      rw [if_neg (not_or.mpr ⟨hb, hd⟩)]
      split
      · rfl
      · next hmore => apply fromhexLoop_overflow _ (by omega) (by omega) (by omega) (by omega) hgood

/-- The bytes of a text that are not refused. -/
def nibbles : List UInt8 → List UInt8
  | c :: d :: t => (HEX c <<< 4 ||| HEX d) :: nibbles t
  | _ => []

theorem fromhexLoop_eq : ∀ {t : List UInt8} {i : ℕ} (buffer : List UInt8), t.length % 2 = 0 → i + t.length < 2 ^ 31 →
  (∀ c ∈ t, ¬ HEX c > 16) → fromhexLoop i t buffer = .ok (buffer ++ nibbles t)
  | [], i, buffer, _, _, _ => congrArg Except.ok (List.append_nil buffer).symm
  | [_], i, buffer, hlength, _, _ => by cases hlength
  | b :: d :: t, i, buffer, hlength, hlt, hgood => by
      rw [List.length_cons, List.length_cons] at hlength hlt
      rw [List.forall_mem_cons, List.forall_mem_cons] at hgood
      obtain ⟨hb, hd, hgood⟩ := hgood
      rw [fromhexLoop, nibbles]
      rw [if_neg (not_or.mpr ⟨hb, hd⟩), if_neg (by omega), fromhexLoop_eq _ (by omega) (by omega) hgood,
        List.append_assoc, List.singleton_append]

/-! ### What is encoded -/

theorem length_flatMap_hexPair (s : List UInt8) :
  (s.flatMap hexPair).length = 2 * s.length
  := by
  induction s with
  | nil => rfl
  | cons b s ih =>
      rw [List.flatMap_cons, List.length_append, ih, List.length_cons]
      change 2 + 2 * s.length = _
      omega

theorem mem_hex_of_mem {s : List UInt8} {c : UInt8} (h : c ∈ s.flatMap hexPair) :
  c ∈ hex
  := by
  obtain ⟨b, -, hb⟩ := List.mem_flatMap.mp h
  obtain ⟨d, e, hpair, hd, he, -⟩ := HEX_hexPair b
  rw [hpair] at hb
  rcases List.mem_pair.mp hb with rfl | rfl
  · exact hd
  · exact he

theorem nibbles_flatMap (s : List UInt8) :
  nibbles (s.flatMap hexPair) = s
  := by
  induction s with
  | nil => rfl
  | cons b s ih =>
      obtain ⟨c, d, hpair, -, -, hbyte⟩ := HEX_hexPair b
      rw [List.flatMap_cons, hpair]
      change (HEX c <<< 4 ||| HEX d) :: nibbles (s.flatMap hexPair) = b :: s
      rw [hbyte, ih]

theorem flatMap_nibbles : ∀ {t : List UInt8}, t.length % 2 = 0 → (∀ c ∈ t, c ∈ hex) →
  (nibbles t).flatMap hexPair = t
  | [], _, _ => rfl
  | [_], hlength, _ => by cases hlength
  | c :: d :: t, hlength, ht => by
      rw [List.length_cons, List.length_cons] at hlength
      rw [List.forall_mem_cons, List.forall_mem_cons] at ht
      obtain ⟨hc, hd, ht⟩ := ht
      rw [nibbles, List.flatMap_cons, hexPair_HEX hc hd, flatMap_nibbles (by omega) ht]
      rfl

/-- What is encoded to a text consists of its digits. -/
theorem ltohex_eq_ok_iff {s t : List UInt8} :
  ltohex s = .ok t ↔ s.length ≤ 2 ^ 30 ∧ s.flatMap hexPair = t
  := by
  unfold ltohex
  split
  · next hlong =>
      apply iff_of_false
      · exact nofun
      · omega
  · next hshort =>
      constructor
      · intro h
        exact ⟨by omega, Except.ok.inj h⟩
      · rintro ⟨-, rfl⟩
        rfl

/-! ### All texts -/

/-- A text of digits in pairs, of less than 2 GB, is decoded to the string that is encoded to it. -/
theorem lfromhex_digits {t : List UInt8} (ht : t.length % 2 = 0) (hlt : t.length < 2 ^ 31)
    (hdigits : ∀ c ∈ t, c ∈ hex) :
  lfromhex t = .ok (nibbles t)
  := by
  rw [lfromhex, if_neg (by omega), fromhexLoop_eq [] ht (by omega) fun c hc => HEX_of_mem (hdigits c hc)]
  rfl

/-- Where an error is raised and the text is not what a string is encoded to. -/
theorem exact_of_error {t : List UInt8} {message : String} (h : lfromhex t = .error (.error message))
    (hother : ¬ (t.length % 2 = 0 ∧ ∀ c ∈ t, c ∈ hex)) :
  Exact t
  := by
  constructor
  · intro s
    rw [h]
    apply iff_of_false nofun
    intro hs
    obtain ⟨-, rfl⟩ := ltohex_eq_ok_iff.mp hs
    apply hother
    rw [length_flatMap_hexPair]
    exact ⟨Nat.mul_mod_right 2 _, fun c hc => mem_hex_of_mem hc⟩
  · rw [h]
    exact iff_of_false nofun hother
  · intro e he
    rw [h] at he
    cases he
    exact ⟨message, rfl⟩

/-- A text of digits in pairs, of less than 2 GB. -/
theorem exact_of_digits {t : List UInt8} (ht : t.length % 2 = 0) (hlt : t.length < 2 ^ 31)
    (hdigits : ∀ c ∈ t, c ∈ hex) :
  Exact t
  := by
  have hdecode := lfromhex_digits ht hlt hdigits
  have hencode := flatMap_nibbles ht hdigits
  constructor
  · intro s
    rw [hdecode, ltohex_eq_ok_iff]
    constructor
    · intro h
      obtain rfl := Except.ok.inj h
      have hlength := length_flatMap_hexPair (nibbles t)
      rw [hencode] at hlength
      exact ⟨by omega, hencode⟩
    · rintro ⟨-, rfl⟩
      rw [nibbles_flatMap]
  · exact iff_of_true ⟨_, hdecode⟩ ⟨ht, hdigits⟩
  · intro e he
    rw [hdecode] at he
    cases he

/-- A text is decoded precisely when it is what a string is encoded to, unless it is one of 2 GB or more or has other
characters than digits, and none of the first 2 GB is refused. -/
theorem hex_exact_iff (t : List UInt8) :
  Exact t ↔ t.length % 2 = 1 ∨ (∃ c ∈ t.take (2 ^ 31), HEX c > 16) ∨ t.length < 2 ^ 31 ∧ ∀ c ∈ t, c ∈ hex
  := by
  rcases Nat.mod_two_eq_zero_or_one t.length with heven | hodd
  · by_cases hrefused : ∃ c ∈ t.take (2 ^ 31), HEX c > 16
    · apply iff_of_true _ (.inr (.inl hrefused))
      have herror := fromhexLoop_refused (i := 0) [] heven rfl hrefused
      apply exact_of_error
      · rw [lfromhex, if_neg (by omega), herror]
      · rintro ⟨-, hdigits⟩
        obtain ⟨c, hc, hrefused⟩ := hrefused
        exact HEX_of_mem (hdigits c (List.mem_of_mem_take hc)) hrefused
    · have hgood : ∀ c ∈ t.take (2 ^ 31), ¬ HEX c > 16 := fun c hc hbad => hrefused ⟨c, hc, hbad⟩
      rcases Nat.lt_or_ge t.length (2 ^ 31) with hlt | hge
      · rw [List.take_of_length_le hlt.le] at hgood
        have hdecode : lfromhex t = .ok (nibbles t) := by
          rw [lfromhex, if_neg (by omega), fromhexLoop_eq [] heven (by omega) hgood]
          rfl
        constructor
        · intro h
          exact .inr (.inr ⟨hlt, (h.accepted.mp ⟨_, hdecode⟩).2⟩)
        · rintro (hodd | hbad | ⟨-, hdigits⟩)
          · omega
          · exact absurd hbad hrefused
          · exact exact_of_digits heven hlt hdigits
      · have hover : lfromhex t = .error .undefined := by
          rw [lfromhex, if_neg (by omega), fromhexLoop_overflow [] heven rfl (by omega) (by omega) hgood]
        apply iff_of_false
        · intro h
          obtain ⟨message, hmessage⟩ := h.raises .undefined hover
          cases hmessage
        · rintro (hodd | hbad | ⟨hlt, -⟩)
          · omega
          · exact hrefused hbad
          · omega
  · apply iff_of_true _ (.inl hodd)
    apply exact_of_error
    · rw [lfromhex, if_pos hodd]
    · omega

/-- The letter `g` is taken for a digit, and so are capital letters. -/
theorem letter_decoded :
  lfromhex (ascii "0g") = .ok [0x10] ∧ lfromhex (ascii "YZ") = .ok [0x23] ∧
    (¬ ∃ s, ltohex s = .ok (ascii "0g")) ∧ ¬ Exact (ascii "0g") ∧ ¬ Exact (ascii "YZ")
  := by
  have hg : lfromhex (ascii "0g") = .ok [0x10] := by rfl
  have hyz : lfromhex (ascii "YZ") = .ok [0x23] := by rfl
  refine ⟨hg, hyz, ?_, ?_, ?_⟩
  · rintro ⟨s, hs⟩
    obtain ⟨-, htext⟩ := ltohex_eq_ok_iff.mp hs
    have hmem : (103 : UInt8) ∈ hex := by
      apply mem_hex_of_mem
      rw [htext]
      decide +kernel
    revert hmem
    decide +kernel
  · intro h
    have hdigits := (h.accepted.mp ⟨_, hg⟩).2
    revert hdigits
    decide +kernel
  · intro h
    have hdigits := (h.accepted.mp ⟨_, hyz⟩).2
    revert hdigits
    decide +kernel

end Crypt
