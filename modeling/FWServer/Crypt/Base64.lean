import FWServer.Crypt.Des
import Mathlib.Data.Nat.Bitwise

/-!
# Base64 in `crypt`

`lb64encode` and `lb64decode` of `lualib-src/lua-crypt.c`.  The decoder reads four characters at a time and passes
over those that are foreign to the alphabet.  It does so also behind the last four, where it then misses the next
ones: a text with foreign characters is decoded as without them unless it ends with one (`decode_inserted_iff`).
-/

namespace Crypt

/-! ### The encoder -/

/-- `SMALL_CHUNK` -/
def SMALL_CHUNK : ℕ := 256

/-- The bytes of a text. -/
def ascii (s : String) : List UInt8 :=
  s.toList.map fun c => UInt8.ofNat c.toNat

/-- `encoding` -/
def encoding : List UInt8 :=
  ascii "ABCDEFGHIJKLMNOPQRSTUVWXYZabcdefghijklmnopqrstuvwxyz0123456789+/"

/-- `encoding[k]` -/
def digit (k : ℕ) : UInt8 :=
  encoding.getD k 0

/-- `'='` -/
def pad : UInt8 := 61

/-- What the loop of `lb64encode` writes for three bytes. -/
def encodeThree (x y z : UInt8) : List UInt8 :=
  let v := x.toNat <<< 16 ||| y.toNat <<< 8 ||| z.toNat
  [digit (v >>> 18), digit (v >>> 12 &&& 0x3f), digit (v >>> 6 &&& 0x3f), digit (v &&& 0x3f)]

/-- The loop of `lb64encode`, passed `n` times. -/
def encodeLoop : ℕ → List UInt8 → List UInt8
  | n + 1, x :: y :: z :: text => encodeThree x y z ++ encodeLoop n text
  | _, _ => []

/-- `switch(padding)` in `lb64encode`, with the bytes from `text[i]` on. -/
def encodeTail (text : List UInt8) (padding : ℤ) : List UInt8 :=
  if padding = 1 then
    let v := (text.getD 0 0).toNat
    [digit (v >>> 2), digit ((v &&& 3) <<< 4), pad, pad]
  else if padding = 2 then
    let v := (text.getD 0 0).toNat <<< 8 ||| (text.getD 1 0).toNat
    [digit (v >>> 10), digit (v >>> 4 &&& 0x3f), digit ((v &&& 0xf) <<< 2), pad]
  else []

/-- `lb64encode`.  The size of the buffer is an `int`, and `n` is the number of times the loop
`for (i=0;i<(int)sz-2;i+=3)` is passed. -/
def lb64encode (text : List UInt8) : Except Fault (List UInt8) :=
  let sz := text.length
  let encode_sz := toInt ((sz + 2) / 3 * 4)
  let n := ((toInt sz - 2).toNat + 2) / 3
  let buffer := encodeLoop n text ++ encodeTail (text.drop (3 * n)) (toInt (sz - 3 * n))
  if buffer.length ≤ max encode_sz SMALL_CHUNK ∧ 0 ≤ encode_sz ∧ encode_sz ≤ buffer.length then
    .ok (buffer.take encode_sz.toNat)
  else .error .undefined

/-! ### The decoder -/

/-- `decoding` -/
def decoding : List ℤ := [
  62, -1, -1, -1, 63, 52, 53, 54, 55, 56, 57, 58, 59, 60, 61, -1, -1, -1, -2, -1, -1, -1, 0, 1, 2, 3, 4, 5, 6, 7, 8, 9,
  10, 11, 12, 13, 14, 15, 16, 17, 18, 19, 20, 21, 22, 23, 24, 25, -1, -1, -1, -1, -1, -1, 26, 27, 28, 29, 30, 31, 32,
  33, 34, 35, 36, 37, 38, 39, 40, 41, 42, 43, 44, 45, 46, 47, 48, 49, 50, 51]

/-- `b64index` -/
def b64index (c : UInt8) : ℤ :=
  if c < 43 then -1
  else if (c - 43).toNat ≥ decoding.length then -1
  else decoding.getD (c - 43).toNat 0

/-- The inner loop of `lb64decode`, with `c[0]` to `c[j-1]` and the bytes from `text[i]` on: the `c` that it fills, `i`
and the bytes that are left. -/
def fill (i : ℕ) (c : List ℤ) (text : List UInt8) : Except Fault (List ℤ × ℕ × List UInt8) :=
  if c.length = 4 then .ok (c, i, text)
  else
    match text with
    | [] => .error (.error "Invalid base64 text")
    | b :: text =>
        if i + 1 = 2 ^ 31 then .error .undefined
        else if b64index b = -1 then fill (i + 1) c text
        else fill (i + 1) (c ++ [b64index b]) text

/-- `switch (padding)` in `lb64decode`: what is written. -/
def decodeFour : List ℤ → Except Fault (List UInt8)
  | [c₀, c₁, c₂, c₃] =>
      match [c₀, c₁, c₂, c₃].count (-2) with
      | 0 =>
          let v := c₀.toNat <<< 18 ||| c₁.toNat <<< 12 ||| c₂.toNat <<< 6 ||| c₃.toNat
          .ok [UInt8.ofNat (v >>> 16), UInt8.ofNat (v >>> 8 &&& 0xff), UInt8.ofNat (v &&& 0xff)]
      | 1 =>
          if c₃ ≠ -2 ∨ c₂ % 4 ≠ 0 then .error (.error "Invalid base64 text")
          else
            let v := c₀.toNat <<< 10 ||| c₁.toNat <<< 4 ||| c₂.toNat >>> 2
            .ok [UInt8.ofNat (v >>> 8), UInt8.ofNat (v &&& 0xff)]
      | 2 =>
          if c₃ ≠ -2 ∨ c₂ ≠ -2 ∨ c₁ % 16 ≠ 0 then .error (.error "Invalid base64 text")
          else
            let v := c₀.toNat <<< 2 ||| c₁.toNat >>> 4
            .ok [UInt8.ofNat v]
      | _ => .error (.error "Invalid base64 text")
  | _ => .error .undefined

theorem length_fill {i i' : ℕ} {c c' : List ℤ} {text text' : List UInt8} (h : fill i c text = .ok (c', i', text')) :
  c'.length = 4 ∧ i' + text'.length = i + text.length ∧ text'.length + 4 ≤ text.length + c.length
  := by
  induction text generalizing i c with
  | nil =>
      rw [fill] at h
      split at h
      · next hfull =>
          cases h
          omega
      · cases h
  | cons b text ih =>
      rw [fill] at h
      split at h
      · next hfull =>
          cases h
          omega
      · rw [List.length_cons]
        split at h
        · cases h
        · split at h
          · have hlength := ih h
            omega
          · have hlength := ih h
            rw [List.length_append, List.length_singleton] at hlength
            omega

/-- The outer loop of `lb64decode`, with the bytes from `text[i]` on and those written so far: all that is written, and
how the loop ends. -/
def decodeLoop (i : ℕ) (text buffer : List UInt8) : List UInt8 × Except Fault Unit :=
  if text = [] then (buffer, .ok ())
  else
    match _h : fill i [] text with
    | .error e => (buffer, .error e)
    | .ok (c, i, rest) =>
        match decodeFour c with
        | .error e => (buffer, .error e)
        | .ok bytes => decodeLoop i rest (buffer ++ bytes)
termination_by text.length
decreasing_by
  have hlength := length_fill _h
  rw [List.length_nil] at hlength
  omega

/-- What `lb64decode` writes to its buffer. -/
def written (text : List UInt8) : List UInt8 :=
  (decodeLoop 0 text []).1

/-- `decode_sz` -/
def decode_sz (text : List UInt8) : ℤ :=
  toInt ((text.length + 3) / 4 * 3)

/-- `lb64decode` -/
def lb64decode (text : List UInt8) : Except Fault (List UInt8) :=
  (decodeLoop 0 text []).2.map fun _ => written text

/-! ### Foreign characters -/

/-- A byte that is neither in the alphabet nor the padding. -/
def Foreign (b : UInt8) : Prop :=
  b ∉ encoding ∧ b ≠ pad

/-- The second text is the first one with foreign bytes inserted. -/
inductive Inserted : List UInt8 → List UInt8 → Prop
  | nil : Inserted [] []
  | keep (b : UInt8) {text t : List UInt8} : Inserted text t → Inserted (b :: text) (b :: t)
  | insert {b : UInt8} {text t : List UInt8} : Foreign b → Inserted text t → Inserted text (b :: t)

/-- A text is decoded to a string, and nothing is written behind the end of the buffer. -/
structure Decoded (t s : List UInt8) : Prop where
  returned : lb64decode t = .ok s
  inside : (written t).length ≤ decode_sz t

/-- What holds of the bytes one by one. -/
theorem forall_byte {P : UInt8 → Prop} (h : ∀ n < 256, P (UInt8.ofNat n)) (b : UInt8) :
  P b
  := by
  have hb := h b.toNat b.toNat_lt
  rwa [UInt8.ofNat_toNat] at hb

instance (b : UInt8) : Decidable (Foreign b) :=
  inferInstanceAs (Decidable (_ ∧ _))

/-- The bytes of the alphabet, as numbers. -/
def codes : List ℕ :=
  List.range' 65 26 ++ List.range' 97 26 ++ List.range' 48 10 ++ [43, 47]

theorem encoding_eq :
  encoding = codes.map UInt8.ofNat
  := by decide +kernel

theorem mem_encoding_iff (b : UInt8) :
  b ∈ encoding ↔ b.toNat ∈ codes
  := by
  rw [encoding_eq, List.mem_map]
  constructor
  · rintro ⟨n, hn, rfl⟩
    have hlt : ∀ n ∈ codes, n < 256 := by decide
    rwa [UInt8.toNat_ofNat_of_lt' (hlt n hn)]
  · intro h
    exact ⟨b.toNat, h, UInt8.ofNat_toNat⟩

theorem b64index_eq_neg_one_iff (b : UInt8) :
  b64index b = -1 ↔ Foreign b
  := by
  unfold Foreign
  rw [mem_encoding_iff]
  revert b
  apply forall_byte
  decide +kernel

theorem b64index_digit {k : ℕ} (h : k < 64) :
  b64index (digit k) = k
  := by
  revert k
  unfold digit
  rw [encoding_eq]
  decide +kernel

theorem b64index_pad :
  b64index pad = -2
  := by decide

/-! ### The inner loop -/

/-- The last byte of a text, when it has one, is not foreign. -/
def EndsWell (t : List UInt8) : Prop :=
  ∀ b ∈ t.getLast?, ¬ Foreign b

theorem endsWell_nil :
  EndsWell []
  := nofun

theorem endsWell_cons {b : UInt8} {t : List UInt8} :
  EndsWell (b :: t) ↔ (t = [] → ¬ Foreign b) ∧ EndsWell t
  := by
  unfold EndsWell
  cases t with
  | nil => simp
  | cons d t => simp [List.getLast?_cons]

/-- What has been read when the inner loop ends: the bytes up to the last of four that are not foreign. -/
theorem fill_ok {i i' : ℕ} {c c' : List ℤ} {text text' : List UInt8} (h : fill i c text = .ok (c', i', text'))
    (hi : i < 2 ^ 31) :
  ∃ front, text = front ++ text' ∧ i' = i + front.length ∧ i' < 2 ^ 31 ∧
    front.countP (fun b => ¬ Foreign b) + c.length = 4 ∧ EndsWell front
  := by
  induction text generalizing i c with
  | nil =>
      rw [fill] at h
      split at h
      · next hfull =>
          cases h
          exact ⟨[], rfl, rfl, hi, by rw [hfull]; rfl, endsWell_nil⟩
      · cases h
  | cons b text ih =>
      rw [fill] at h
      split at h
      · next hfull =>
          cases h
          exact ⟨[], rfl, rfl, hi, by rw [hfull]; rfl, endsWell_nil⟩
      · next hmore =>
          split at h
          · cases h
          · next hcounter =>
              simp only [b64index_eq_neg_one_iff] at h
              split at h
              · next hforeign =>
                  obtain ⟨front, rfl, rfl, hlt, hcount, hends⟩ := ih h (by omega)
                  use b :: front, rfl
                  rw [List.length_cons, List.countP_cons_of_neg (by simp [hforeign]), endsWell_cons]
                  refine ⟨by omega, by omega, hcount, ?_, hends⟩
                  rintro rfl
                  exact absurd ((Nat.zero_add _).symm.trans hcount) hmore
              · next hdigit =>
                  obtain ⟨front, rfl, rfl, hlt, hcount, hends⟩ := ih h (by omega)
                  rw [List.length_append, List.length_singleton] at hcount
                  use b :: front, rfl
                  rw [List.length_cons, List.countP_cons_of_pos (by simp [hdigit]), endsWell_cons]
                  exact ⟨by omega, by omega, by omega, fun _ => hdigit, hends⟩

/-- Foreign bytes are passed over while there are bytes of the text to come. -/
theorem fill_inserted {text t : List UInt8} (h : Inserted text t) {i : ℕ} {c : List ℤ} (hc : c.length ≤ 4)
    (hmore : 4 ≤ c.length + text.length) (hi : i + t.length < 2 ^ 31) (htext : ∀ b ∈ text, ¬ Foreign b) :
  ∃ i' t', fill i c t = .ok (c ++ (text.take (4 - c.length)).map b64index, i', t') ∧
    Inserted (text.drop (4 - c.length)) t'
  := by
  induction h generalizing i c with
  | nil =>
      rw [List.length_nil] at hmore
      have hfull : c.length = 4 := by omega
      rw [fill, if_pos hfull, hfull, List.take_nil, List.map_nil, List.append_nil]
      exact ⟨i, [], rfl, .nil⟩
  | @keep b text t hins ih =>
      rw [List.length_cons] at hmore hi
      by_cases hfull : c.length = 4
      · rw [fill, if_pos hfull, hfull, List.take_zero, List.map_nil, List.append_nil]
        exact ⟨i, b :: t, rfl, .keep b hins⟩
      · have hdigit := htext b List.mem_cons_self
        have hlength : (c ++ [b64index b]).length = c.length + 1 := by
          rw [List.length_append, List.length_singleton]
        obtain ⟨i', t', hfill, hrest⟩ := ih (i := i + 1) (c := c ++ [b64index b]) (by omega) (by omega) (by omega)
          fun d hd => htext d (List.mem_cons_of_mem b hd)
        have hplace : 4 - c.length = (4 - (c.length + 1)) + 1 := by omega
        rw [hlength, List.append_assoc] at hfill
        rw [hlength] at hrest
        rw [fill, if_neg hfull, if_neg (by omega), if_neg (mt (b64index_eq_neg_one_iff b).mp hdigit), hplace,
          List.take_succ_cons, List.map_cons, List.drop_succ_cons]
        exact ⟨i', t', hfill, hrest⟩
  | @insert b text t hforeign hins ih =>
      rw [List.length_cons] at hi
      by_cases hfull : c.length = 4
      · rw [fill, if_pos hfull, hfull, List.take_zero, List.map_nil, List.append_nil]
        exact ⟨i, b :: t, rfl, .insert hforeign hins⟩
      · rw [fill, if_neg hfull, if_neg (by omega), if_pos ((b64index_eq_neg_one_iff b).mpr hforeign)]
        apply ih hc hmore (by omega) htext

/-! ### Four characters -/

theorem or_eq_add {n b : ℕ} (a : ℕ) (hb : b < 2 ^ n) :
  a <<< n ||| b = a * 2 ^ n + b
  := by rw [← Nat.shiftLeft_add_eq_or_of_lt hb, Nat.shiftLeft_eq]

/-- Three numbers side by side. -/
theorem or_or_eq_add {n m b c : ℕ} (a : ℕ) (hb : b < 2 ^ m) (hc : c < 2 ^ n) :
  a <<< (m + n) ||| b <<< n ||| c = (a * 2 ^ m + b) * 2 ^ n + c
  := by rw [Nat.shiftLeft_add, ← Nat.shiftLeft_or_distrib, or_eq_add a hb, or_eq_add _ hc]

theorem natCast_ne (n : ℕ) :
  (n : ℤ) ≠ -2
  := by omega

/-- Four characters without padding. -/
theorem decodeFour_none (a b c d : ℕ) :
  decodeFour [(a : ℤ), b, c, d] =
    let v := a <<< 18 ||| b <<< 12 ||| c <<< 6 ||| d
    .ok [UInt8.ofNat (v >>> 16), UInt8.ofNat (v >>> 8 &&& 0xff), UInt8.ofNat (v &&& 0xff)]
  := by
  have hcount : [(a : ℤ), b, c, d].count (-2) = 0 := by
    simp [natCast_ne]
  rw [decodeFour, hcount]
  rfl

theorem decodeFour_one (a b c : ℕ) (hc : c % 4 = 0) :
  decodeFour [(a : ℤ), b, c, -2] =
    let v := a <<< 10 ||| b <<< 4 ||| c >>> 2
    .ok [UInt8.ofNat (v >>> 8), UInt8.ofNat (v &&& 0xff)]
  := by
  have hcount : [(a : ℤ), b, c, -2].count (-2) = 1 := by
    simp [natCast_ne]
  rw [decodeFour, hcount]
  change (if (-2 : ℤ) ≠ -2 ∨ (c : ℤ) % 4 ≠ 0 then _ else _) = _
  rw [if_neg (by omega)]
  rfl

theorem decodeFour_two (a b : ℕ) (hb : b % 16 = 0) :
  decodeFour [(a : ℤ), b, -2, -2] = .ok [UInt8.ofNat (a <<< 2 ||| b >>> 4)]
  := by
  have hcount : [(a : ℤ), b, -2, -2].count (-2) = 2 := by
    simp [natCast_ne]
  rw [decodeFour, hcount]
  change (if (-2 : ℤ) ≠ -2 ∨ (-2 : ℤ) ≠ -2 ∨ (b : ℤ) % 16 ≠ 0 then _ else _) = _
  rw [if_neg (by omega)]
  rfl

/-- The bits of a number from those behind the `n`-th on. -/
theorem bits_eq (v n : ℕ) :
  v >>> n &&& 0x3f = v / 2 ^ n % 64
  := by
  rw [Nat.shiftRight_eq_div_pow]
  exact Nat.and_two_pow_sub_one_eq_mod _ 6

theorem and_eq_mod (v : ℕ) :
  v &&& 0xff = v % 256
  := Nat.and_two_pow_sub_one_eq_mod v 8

theorem encodeThree_eq (x y z : UInt8) :
  encodeThree x y z =
    let v := (x.toNat * 2 ^ 8 + y.toNat) * 2 ^ 8 + z.toNat
    [digit (v / 2 ^ 18), digit (v / 2 ^ 12 % 64), digit (v / 2 ^ 6 % 64), digit (v % 64)]
  := by
  have hv : x.toNat <<< 16 ||| y.toNat <<< 8 ||| z.toNat = (x.toNat * 2 ^ 8 + y.toNat) * 2 ^ 8 + z.toNat :=
    or_or_eq_add (m := 8) (n := 8) x.toNat y.toNat_lt z.toNat_lt
  unfold encodeThree
  dsimp only
  rw [hv, bits_eq, bits_eq, Nat.shiftRight_eq_div_pow]
  congr 4
  exact congrArg digit (Nat.and_two_pow_sub_one_eq_mod _ 6)

theorem decodeFour_encodeThree (x y z : UInt8) :
  decodeFour ((encodeThree x y z).map b64index) = .ok [x, y, z]
  := by
  have hx := x.toNat_lt
  have hy := y.toNat_lt
  have hz := z.toNat_lt
  rw [encodeThree_eq]
  generalize hn : (x.toNat * 2 ^ 8 + y.toNat) * 2 ^ 8 + z.toNat = v
  have hjoined : (v / 2 ^ 18) <<< 18 ||| (v / 2 ^ 12 % 64) <<< 12 ||| (v / 2 ^ 6 % 64) <<< 6 ||| v % 64 = v := by
    have hfirst := or_or_eq_add (m := 6) (n := 6) (b := v / 2 ^ 12 % 64) (c := v / 2 ^ 6 % 64) (v / 2 ^ 18)
      (by omega) (by omega)
    have hall : ((v / 2 ^ 18) <<< 12 ||| (v / 2 ^ 12 % 64) <<< 6 ||| v / 2 ^ 6 % 64) <<< 6 =
        (v / 2 ^ 18) <<< 18 ||| (v / 2 ^ 12 % 64) <<< 12 ||| (v / 2 ^ 6 % 64) <<< 6 := by
      rw [Nat.shiftLeft_or_distrib, Nat.shiftLeft_or_distrib, ← Nat.shiftLeft_add, ← Nat.shiftLeft_add]
    rw [← hall, or_eq_add _ (by omega), hfirst]
    omega
  dsimp only
  rw [List.map_cons, List.map_cons, List.map_cons, List.map_cons, List.map_nil, b64index_digit (by omega),
    b64index_digit (by omega), b64index_digit (by omega), b64index_digit (by omega), decodeFour_none]
  dsimp only
  rw [hjoined, and_eq_mod, and_eq_mod, Nat.shiftRight_eq_div_pow, Nat.shiftRight_eq_div_pow]
  have hfirst : v / 2 ^ 16 = x.toNat := by omega
  have hsecond : v / 2 ^ 8 % 256 = y.toNat := by omega
  have hthird : v % 256 = z.toNat := by omega
  rw [hfirst, hsecond, hthird, UInt8.ofNat_toNat, UInt8.ofNat_toNat, UInt8.ofNat_toNat]

theorem encodeTail_one (x : UInt8) :
  encodeTail [x] 1 = [digit (x.toNat / 4), digit (x.toNat % 4 * 16), pad, pad]
  := by
  have hlow : x.toNat &&& 3 = x.toNat % 4 := Nat.and_two_pow_sub_one_eq_mod _ 2
  have hlast : (x.toNat % 4) <<< 4 = x.toNat % 4 * 16 := Nat.shiftLeft_eq _ 4
  have hfirst : x.toNat >>> 2 = x.toNat / 4 := Nat.shiftRight_eq_div_pow _ 2
  rw [← hlast, ← hlow, ← hfirst]
  rfl

theorem encodeTail_two (x y : UInt8) :
  encodeTail [x, y] 2 =
    let v := x.toNat * 2 ^ 8 + y.toNat
    [digit (v / 2 ^ 10), digit (v / 2 ^ 4 % 64), digit (v % 16 * 4), pad]
  := by
  have hv : x.toNat <<< 8 ||| y.toNat = x.toNat * 2 ^ 8 + y.toNat := or_eq_add x.toNat y.toNat_lt
  rw [← hv]
  generalize hn : x.toNat <<< 8 ||| y.toNat = v
  have hlow : v &&& 0xf = v % 16 := Nat.and_two_pow_sub_one_eq_mod v 4
  have hlast : (v % 16) <<< 2 = v % 16 * 4 := Nat.shiftLeft_eq _ 2
  dsimp only
  rw [← hlast, ← hlow, ← bits_eq, ← Nat.shiftRight_eq_div_pow, encodeTail, if_neg (by decide), if_pos rfl]
  change (let v := x.toNat <<< 8 ||| y.toNat
    [digit (v >>> 10), digit (v >>> 4 &&& 0x3f), digit ((v &&& 0xf) <<< 2), pad]) = _
  rw [hn]

theorem decodeFour_encodeTail_one (x : UInt8) :
  decodeFour ((encodeTail [x] 1).map b64index) = .ok [x]
  := by
  have hx := x.toNat_lt
  have hjoined : (x.toNat / 4) <<< 2 ||| (x.toNat % 4 * 16) >>> 4 = x.toNat := by
    rw [Nat.shiftRight_eq_div_pow, Nat.mul_div_cancel _ (by omega), or_eq_add _ (by omega)]
    omega
  rw [encodeTail_one, List.map_cons, List.map_cons, List.map_cons, List.map_cons, List.map_nil,
    b64index_digit (by omega), b64index_digit (by omega), b64index_pad, decodeFour_two _ _ (by omega), hjoined,
    UInt8.ofNat_toNat]

theorem decodeFour_encodeTail_two (x y : UInt8) :
  decodeFour ((encodeTail [x, y] 2).map b64index) = .ok [x, y]
  := by
  have hx := x.toNat_lt
  have hy := y.toNat_lt
  rw [encodeTail_two]
  generalize hn : x.toNat * 2 ^ 8 + y.toNat = v
  have hjoined : (v / 2 ^ 10) <<< 10 ||| (v / 2 ^ 4 % 64) <<< 4 ||| (v % 16 * 4) >>> 2 = v := by
    have hthird : (v % 16 * 4) >>> 2 = v % 16 := by
      rw [Nat.shiftRight_eq_div_pow, Nat.mul_div_cancel _ (by omega)]
    have hall := or_or_eq_add (m := 6) (n := 4) (b := v / 2 ^ 4 % 64) (c := v % 16) (v / 2 ^ 10) (by omega) (by omega)
    rw [hthird]
    apply hall.trans
    omega
  dsimp only
  rw [List.map_cons, List.map_cons, List.map_cons, List.map_cons, List.map_nil, b64index_digit (by omega),
    b64index_digit (by omega), b64index_digit (by omega), b64index_pad, decodeFour_one _ _ _ (by omega)]
  dsimp only
  rw [hjoined, and_eq_mod, Nat.shiftRight_eq_div_pow]
  have hfirst : v / 2 ^ 8 = x.toNat := by omega
  have hsecond : v % 256 = y.toNat := by omega
  rw [hfirst, hsecond, UInt8.ofNat_toNat, UInt8.ofNat_toNat]

/-! ### Strings -/

/-- What a string of less than 2 GB is encoded to. -/
def encoded : List UInt8 → List UInt8
  | [] => []
  | [x] => encodeTail [x] 1
  | [x, y] => encodeTail [x, y] 2
  | x :: y :: z :: s => encodeThree x y z ++ encoded s

theorem length_encoded : ∀ s : List UInt8,
  (encoded s).length = (s.length + 2) / 3 * 4
  | [] => rfl
  | [x] => by simp [encoded, encodeTail_one]
  | [x, y] => by simp [encoded, encodeTail_two]
  | x :: y :: z :: s => by
      have hlength : (encodeThree x y z).length = 4 := rfl
      rw [encoded, List.length_append, length_encoded s, hlength, List.length_cons, List.length_cons, List.length_cons]
      omega

/-- The loop and the switch together. -/
theorem encodeLoop_encodeTail : ∀ s : List UInt8,
  encodeLoop (s.length / 3) s ++ encodeTail (s.drop (3 * (s.length / 3))) (s.length % 3 : ℕ) = encoded s
  | [] => rfl
  | [x] => by simp [encoded, encodeLoop]
  | [x, y] => by simp [encoded, encodeLoop]
  | x :: y :: z :: s => by
      have hdiv : (x :: y :: z :: s).length / 3 = s.length / 3 + 1 := by
        rw [List.length_cons, List.length_cons, List.length_cons]
        omega
      have hmod : (x :: y :: z :: s).length % 3 = s.length % 3 := by
        rw [List.length_cons, List.length_cons, List.length_cons]
        omega
      rw [hdiv, hmod, encodeLoop, encoded, Nat.mul_succ, ← encodeLoop_encodeTail s, List.append_assoc]
      rfl

theorem digit_not_foreign {k : ℕ} (h : k < 64) :
  ¬ Foreign (digit k)
  := by
  rw [← b64index_eq_neg_one_iff, b64index_digit h]
  omega

theorem pad_not_foreign :
  ¬ Foreign pad
  := fun h => h.2 rfl

/-- No character of an encoded string is foreign. -/
theorem encoded_not_foreign : ∀ s : List UInt8,
  ∀ b ∈ encoded s, ¬ Foreign b
  | [] => nofun
  | [x] => by
      have hx := x.toNat_lt
      rw [encoded, encodeTail_one, List.forall_mem_cons, List.forall_mem_cons, List.forall_mem_cons,
        List.forall_mem_singleton]
      exact ⟨digit_not_foreign (by omega), digit_not_foreign (by omega), pad_not_foreign, pad_not_foreign⟩
  | [x, y] => by
      have hx := x.toNat_lt
      have hy := y.toNat_lt
      rw [encoded, encodeTail_two]
      dsimp only
      rw [List.forall_mem_cons, List.forall_mem_cons, List.forall_mem_cons, List.forall_mem_singleton]
      exact ⟨digit_not_foreign (by omega), digit_not_foreign (by omega), digit_not_foreign (by omega), pad_not_foreign⟩
  | x :: y :: z :: s => by
      have hx := x.toNat_lt
      have hy := y.toNat_lt
      have hz := z.toNat_lt
      rw [encoded, encodeThree_eq, List.forall_mem_append]
      refine ⟨?_, encoded_not_foreign s⟩
      dsimp only
      rw [List.forall_mem_cons, List.forall_mem_cons, List.forall_mem_cons, List.forall_mem_singleton]
      exact ⟨digit_not_foreign (by omega), digit_not_foreign (by omega), digit_not_foreign (by omega),
        digit_not_foreign (by omega)⟩

/-- A string of less than 2 GB is encoded. -/
theorem lb64encode_eq {s : List UInt8} (h : (s.length + 2) / 3 * 4 < 2 ^ 31) :
  lb64encode s = .ok (encoded s)
  := by
  have hint : ∀ n < 2 ^ 31, toInt n = n := by
    intro n hn
    rw [toInt, Nat.mod_eq_of_lt (by omega), if_pos hn]
  have hn : ((toInt s.length - 2).toNat + 2) / 3 = s.length / 3 := by
    rw [hint _ (by omega)]
    omega
  have hrest : s.length - 3 * (s.length / 3) = s.length % 3 := by omega
  have hlength := length_encoded s
  unfold lb64encode
  dsimp only
  rw [hn, hrest, hint _ (by omega), hint _ h, encodeLoop_encodeTail, hlength, if_pos (by omega), Int.toNat_natCast,
    List.take_of_length_le (Nat.le_of_eq hlength)]

/-! ### The outer loop -/

theorem decodeLoop_nil (i : ℕ) (buffer : List UInt8) :
  decodeLoop i [] buffer = (buffer, .ok ())
  := by rw [decodeLoop, if_pos rfl]

theorem decodeLoop_of_fill {i i' : ℕ} {c : List ℤ} {t t' : List UInt8} (ht : t ≠ [])
    (h : fill i [] t = .ok (c, i', t')) (buffer : List UInt8) :
  decodeLoop i t buffer =
    match decodeFour c with
    | .error e => (buffer, .error e)
    | .ok bytes => decodeLoop i' t' (buffer ++ bytes)
  := by
  rw [decodeLoop, if_neg ht]
  split
  · next e he =>
      rw [h] at he
      cases he
  · next c' i'' rest hok =>
      rw [h] at hok
      cases hok
      rfl

theorem decodeLoop_of_error {i : ℕ} {e : Fault} {t : List UInt8} (ht : t ≠ [])
    (h : fill i [] t = .error e) (buffer : List UInt8) :
  decodeLoop i t buffer = (buffer, .error e)
  := by
  rw [decodeLoop, if_neg ht]
  split
  · next e' he =>
      rw [h] at he
      cases he
      rfl
  · next hok =>
      rw [h] at hok
      cases hok

theorem EndsWell.of_append {front t : List UInt8} (h : EndsWell (front ++ t)) :
  EndsWell t
  := by
  induction front with
  | nil => exact h
  | cons b front ih => exact ih (endsWell_cons.mp h).2

theorem EndsWell.append {front t : List UInt8} (hfront : EndsWell front) (h : EndsWell t) :
  EndsWell (front ++ t)
  := by
  intro b hb
  rw [List.getLast?_append] at hb
  cases hlast : t.getLast? with
  | none =>
      rw [hlast, Option.none_or] at hb
      exact hfront b hb
  | some d =>
      rw [hlast, Option.some_or] at hb
      apply h b
      rw [hlast]
      exact hb

theorem inserted_nil {t : List UInt8} (h : Inserted [] t) (hends : EndsWell t) :
  t = []
  := by
  induction t with
  | nil => rfl
  | cons b t ih =>
      cases h with
      | insert hforeign hins =>
          obtain ⟨hlast, hrest⟩ := endsWell_cons.mp hends
          exact absurd hforeign (hlast (ih hins hrest))

/-- A group of four characters, among foreign ones. -/
theorem decodeLoop_group {group rest bytes t : List UInt8} (hgroup : group.length = 4)
    (hdecode : decodeFour (group.map b64index) = .ok bytes) (hforeign : ∀ b ∈ group ++ rest, ¬ Foreign b)
    (hins : Inserted (group ++ rest) t) {i : ℕ} (hi : i + t.length < 2 ^ 31) (hends : EndsWell t) :
  ∃ i' t', Inserted rest t' ∧ i' + t'.length < 2 ^ 31 ∧ EndsWell t' ∧
    ∀ buffer, decodeLoop i t buffer = decodeLoop i' t' (buffer ++ bytes)
  := by
  have hmore : 4 ≤ ([] : List ℤ).length + (group ++ rest).length := by
    rw [List.length_append]
    omega
  obtain ⟨i', t', hfill, hrest⟩ := fill_inserted (c := []) hins (Nat.zero_le 4) hmore hi hforeign
  obtain ⟨-, hlength, hless⟩ := length_fill hfill
  obtain ⟨front, hfront, -⟩ := fill_ok hfill (by omega)
  rw [List.length_nil] at hless
  have ht : t ≠ [] := List.ne_nil_of_length_pos (by omega)
  rw [List.length_nil, Nat.sub_zero, List.drop_left' hgroup] at hrest
  rw [List.length_nil, Nat.sub_zero, List.take_left' hgroup, List.nil_append] at hfill
  refine ⟨i', t', hrest, by omega, ?_, ?_⟩
  · rw [hfront] at hends
    exact hends.of_append
  · intro buffer
    rw [decodeLoop_of_fill ht hfill, hdecode]

/-- An encoded string with foreign characters inserted, but none at its end, is decoded. -/
theorem decodeLoop_inserted : ∀ (s : List UInt8) {t : List UInt8} {i : ℕ} (buffer : List UInt8),
  Inserted (encoded s) t → i + t.length < 2 ^ 31 → EndsWell t → decodeLoop i t buffer = (buffer ++ s, .ok ())
  | [], t, i, buffer, hins, _, hends => by
      rw [inserted_nil hins hends, decodeLoop_nil, List.append_nil]
  | [x], t, i, buffer, hins, hi, hends => by
      have hforeign := encoded_not_foreign [x]
      rw [encoded, ← List.append_nil (encodeTail [x] 1)] at hins hforeign
      obtain ⟨i', t', hrest, -, hends', hstep⟩ :=
        decodeLoop_group (by rw [encodeTail_one]; rfl) (decodeFour_encodeTail_one x) hforeign hins hi hends
      rw [hstep, inserted_nil hrest hends', decodeLoop_nil]
  | [x, y], t, i, buffer, hins, hi, hends => by
      have hforeign := encoded_not_foreign [x, y]
      rw [encoded, ← List.append_nil (encodeTail [x, y] 2)] at hins hforeign
      obtain ⟨i', t', hrest, -, hends', hstep⟩ :=
        decodeLoop_group (by rw [encodeTail_two]; rfl) (decodeFour_encodeTail_two x y) hforeign hins hi hends
      rw [hstep, inserted_nil hrest hends', decodeLoop_nil]
  | x :: y :: z :: s, t, i, buffer, hins, hi, hends => by
      have hforeign := encoded_not_foreign (x :: y :: z :: s)
      rw [encoded] at hins hforeign
      obtain ⟨i', t', hrest, hi', hends', hstep⟩ :=
        decodeLoop_group rfl (decodeFour_encodeThree x y z) hforeign hins hi hends
      rw [hstep, decodeLoop_inserted s (buffer ++ [x, y, z]) hrest hi' hends', List.append_assoc]
      rfl

/-! ### What is written -/

theorem length_decodeFour {c : List ℤ} {bytes : List UInt8} (h : decodeFour c = .ok bytes) :
  bytes.length ≤ 3
  := by
  unfold decodeFour at h
  split at h
  · split at h
    · cases h
      exact Nat.le_refl 3
    · split at h
      · cases h
      · cases h
        exact Nat.le_succ 2
    · split at h
      · cases h
      · cases h
        exact Nat.le_add_left 1 2
    · cases h
  · cases h

/-- Three bytes at most are written for four that are read. -/
theorem length_decodeLoop (n : ℕ) {i : ℕ} {t : List UInt8} (hn : t.length ≤ n) (buffer : List UInt8) :
  4 * (decodeLoop i t buffer).1.length ≤ 4 * buffer.length + 3 * t.length
  := by
  induction n generalizing i t buffer with
  | zero =>
      obtain rfl := List.length_eq_zero_iff.mp (Nat.le_zero.mp hn)
      rw [decodeLoop_nil]
      exact Nat.le_add_right _ _
  | succ n ih =>
      rcases eq_or_ne t [] with rfl | ht
      · rw [decodeLoop_nil]
        exact Nat.le_add_right _ _
      · cases hfill : fill i [] t with
        | error e =>
            rw [decodeLoop_of_error ht hfill]
            exact Nat.le_add_right _ _
        | ok x =>
            obtain ⟨c, i', t'⟩ := x
            obtain ⟨-, -, hless⟩ := length_fill hfill
            rw [List.length_nil] at hless
            rw [decodeLoop_of_fill ht hfill]
            split
            · exact Nat.le_add_right _ _
            · next bytes hdecode =>
                have hrest := ih (i := i') (t := t') (by omega) (buffer ++ bytes)
                have hbytes := length_decodeFour hdecode
                rw [List.length_append] at hrest
                omega

/-- What is left behind when the loop ends well: no byte that is foreign at the end, and a counter that has not
overflowed; and three bytes at most are written for four characters. -/
theorem decodeLoop_ok (n : ℕ) {i : ℕ} {t : List UInt8} (hn : t.length ≤ n) {buffer : List UInt8} (hi : i < 2 ^ 31)
    (h : (decodeLoop i t buffer).2 = .ok ()) :
  i + t.length < 2 ^ 31 ∧ EndsWell t ∧
    4 * (decodeLoop i t buffer).1.length ≤ 4 * buffer.length + 3 * t.countP (fun b => ¬ Foreign b)
  := by
  induction n generalizing i t buffer with
  | zero =>
      obtain rfl := List.length_eq_zero_iff.mp (Nat.le_zero.mp hn)
      rw [decodeLoop_nil]
      exact ⟨hi, endsWell_nil, Nat.le_add_right _ _⟩
  | succ n ih =>
      rcases eq_or_ne t [] with rfl | ht
      · rw [decodeLoop_nil]
        exact ⟨hi, endsWell_nil, Nat.le_add_right _ _⟩
      · cases hfill : fill i [] t with
        | error e =>
            rw [decodeLoop_of_error ht hfill] at h
            cases h
        | ok x =>
            obtain ⟨c, i', t'⟩ := x
            obtain ⟨-, hlength, hless⟩ := length_fill hfill
            obtain ⟨front, hfront, hi', hlt, hcount, hends⟩ := fill_ok hfill hi
            rw [List.length_nil] at hless hcount
            rw [decodeLoop_of_fill ht hfill] at h ⊢
            cases hdecode : decodeFour c with
            | error e =>
                rw [hdecode] at h
                cases h
            | ok bytes =>
                rw [hdecode] at h
                obtain ⟨hplace, hrest, hwritten⟩ := ih (by omega) hlt h
                have hbytes := length_decodeFour hdecode
                rw [List.length_append] at hwritten
                dsimp only
                rw [hfront, List.countP_append]
                refine ⟨?_, ?_, by omega⟩
                · rw [List.length_append]
                  omega
                · exact hends.append hrest

/-- What a text is like that is decoded. -/
theorem decoded_ok {t s : List UInt8} (h : Decoded t s) :
  t.length < 2 ^ 31 ∧ EndsWell t ∧ 4 * s.length ≤ 3 * t.countP (fun b => ¬ Foreign b)
  := by
  have hreturned := h.returned
  unfold lb64decode at hreturned
  cases hloop : (decodeLoop 0 t []).2 with
  | error e =>
      rw [hloop] at hreturned
      cases hreturned
  | ok u =>
      rw [hloop] at hreturned
      obtain ⟨hlength, hends, hwritten⟩ := decodeLoop_ok t.length (Nat.le_refl _) (by omega) hloop
      change 4 * (written t).length ≤ _ at hwritten
      have hs : written t = s := Except.ok.inj hreturned
      rw [hs, List.length_nil] at hwritten
      exact ⟨by omega, hends, by omega⟩

/-! ### All texts -/

theorem countP_inserted {text t : List UInt8} (h : Inserted text t) :
  t.countP (fun b => ¬ Foreign b) ≤ text.length
  := by
  induction h with
  | nil => exact Nat.le_refl 0
  | keep b _ ih =>
      rw [List.countP_cons, List.length_cons]
      split
      · omega
      · omega
  | insert hforeign _ ih =>
      rw [List.countP_cons_of_neg (by simp [hforeign])]
      exact ih

/-- A string that is too long has too short a text. -/
theorem length_lb64encode {s text : List UInt8} (h : lb64encode s = .ok text) :
  (s.length + 2) / 3 * 4 < 2 ^ 31 ∨ text.length + 2 ^ 31 ≤ (s.length + 2) / 3 * 4
  := by
  rcases Nat.lt_or_ge ((s.length + 2) / 3 * 4) (2 ^ 31) with hlt | hge
  · exact .inl hlt
  · right
    unfold lb64encode at h
    dsimp only at h
    split at h
    · next hsize =>
        obtain rfl := Except.ok.inj h
        rw [List.length_take]
        have hint : toInt ((s.length + 2) / 3 * 4) ≤ (s.length + 2) / 3 * 4 - 2 ^ 31 := by
          unfold toInt
          split
          · omega
          · omega
        omega
    · cases h

/-- A text that a string is encoded to, with foreign bytes inserted, is decoded to the string precisely when no foreign
byte is at its end, and neither text is one of 2 GB or more. -/
theorem decode_inserted_iff {s text t : List UInt8} (hencode : lb64encode s = .ok text) (hins : Inserted text t) :
  Decoded t s ↔ (s.length + 2) / 3 * 4 < 2 ^ 31 ∧ t.length < 2 ^ 31 ∧ ∀ b ∈ t.getLast?, ¬ Foreign b
  := by
  constructor
  · intro h
    obtain ⟨hlength, hends, hwritten⟩ := decoded_ok h
    have hcount := countP_inserted hins
    have hlong := length_lb64encode hencode
    refine ⟨?_, hlength, hends⟩
    omega
  · rintro ⟨hs, ht, hends⟩
    rw [lb64encode_eq hs] at hencode
    obtain rfl := Except.ok.inj hencode
    have hloop := decodeLoop_inserted s (i := 0) [] hins (by omega) hends
    rw [List.nil_append] at hloop
    have hwritten : written t = s := congrArg Prod.fst hloop
    constructor
    · rw [lb64decode, hloop, hwritten]
      rfl
    · have hlength := length_decodeLoop t.length (i := 0) (Nat.le_refl _) []
      rw [List.length_nil] at hlength
      change 4 * (written t).length ≤ _ at hlength
      rw [decode_sz, toInt, Nat.mod_eq_of_lt (by omega), if_pos (by omega)]
      omega

theorem decode_inserted_newlines :
  Decoded [10, 83, 10, 71, 107, 10, 10, 61] [72, 105]
  := by
  have hencode : lb64encode [72, 105] = .ok [83, 71, 107, 61] := by rfl
  have hforeign : Foreign 10 := by decide +kernel
  have hins : Inserted [83, 71, 107, 61] [10, 83, 10, 71, 107, 10, 10, 61] :=
    .insert hforeign (.keep 83 (.insert hforeign (.keep 71 (.keep 107
      (.insert hforeign (.insert hforeign (.keep 61 .nil)))))))
  apply (decode_inserted_iff hencode hins).mpr
  refine ⟨by decide, by decide, ?_⟩
  rintro b ⟨⟩
  exact pad_not_foreign

/-- A text that ends with the end of a line is not decoded. -/
theorem newline_not_decoded :
  ∃ text, lb64encode [72, 105] = .ok text ∧ Inserted text (text ++ [10]) ∧ ¬ Decoded (text ++ [10]) [72, 105]
  := by
  have hforeign : Foreign 10 := by decide +kernel
  refine ⟨[83, 71, 107, 61], by rfl, .keep 83 (.keep 71 (.keep 107 (.keep 61 (.insert hforeign .nil)))), ?_⟩
  intro h
  obtain ⟨-, hends, -⟩ := decoded_ok h
  exact hends 10 rfl hforeign

end Crypt
