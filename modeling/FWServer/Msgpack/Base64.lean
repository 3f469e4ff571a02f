import FWServer.Kernel.Accumulator
import Mathlib.Data.List.GetD
import Mathlib.Data.Nat.Notation

/-!
# Base64

`lualib-src/lua-gatepack.c`: `b64` encodes three bytes at a time and keeps those that are left over, and
`unb64` decodes four at a time.  Both may be called with what was kept and a new chunk; they return what they
have encoded or decoded and what they keep.

The table `b64unbase`, from which `unb64` takes the six bits a character stands for, is never filled.  So
every character is decoded to zeros: encoding does not depend on how the input is divided, but only bytes that
are zero are decoded to themselves.
-/

open Accumulator

namespace Gatepack

/-! ### The tables -/

/-- `b64base` -/
def b64base : List Char := [
  'A', 'B', 'C', 'D', 'E', 'F', 'G', 'H', 'I', 'J', 'K', 'L', 'M', 'N', 'O', 'P',
  'Q', 'R', 'S', 'T', 'U', 'V', 'W', 'X', 'Y', 'Z', 'a', 'b', 'c', 'd', 'e', 'f',
  'g', 'h', 'i', 'j', 'k', 'l', 'm', 'n', 'o', 'p', 'q', 'r', 's', 't', 'u', 'v',
  'w', 'x', 'y', 'z', '0', '1', '2', '3', '4', '5', '6', '7', '8', '9', '+', '/']

/-- The byte of a character. -/
def byte (c : Char) : UInt8 :=
  UInt8.ofNat c.toNat

/-- The character of six bits. -/
def digit (n : ℕ) : UInt8 :=
  byte (b64base.getD n '\x00')

/-- `b64unbase`, a static array that nothing is ever written to. -/
def b64unbase : UInt8 → UInt8 :=
  fun _ => 0

/-! ### The steps -/

/-- `b64encode` -/
def b64encode (input : List UInt8) (c : UInt8) : List UInt8 × List UInt8 :=
  match input ++ [c] with
  | [x, y, z] =>
      let value := ((x.toNat <<< 8) + y.toNat) <<< 8 + z.toNat
      ([], [digit (value >>> 18), digit (value >>> 12 &&& 0x3F), digit (value >>> 6 &&& 0x3F),
        digit (value &&& 0x3F)])
  | input => (input, [])

/-- `b64pad` -/
def b64pad : List UInt8 → List UInt8
  | [x] =>
      let value := x.toNat <<< 4
      [digit (value >>> 6), digit (value &&& 0x3F), byte '=', byte '=']
  | [x, y] =>
      let value := (x.toNat <<< 8 ||| y.toNat) <<< 2
      [digit (value >>> 12), digit (value >>> 6 &&& 0x3F), digit (value &&& 0x3F), byte '=']
  | _ => []

/-- `b64decode` -/
def b64decode (input : List UInt8) (c : UInt8) : List UInt8 × List UInt8 :=
  if b64unbase c > 64 then (input, [])
  else
    match input ++ [c] with
    | [x, y, z, w] =>
        let value := (b64unbase x).toNat <<< 6 ||| (b64unbase y).toNat
        let value := (value <<< 6 ||| (b64unbase z).toNat) <<< 6 ||| (b64unbase w).toNat
        let decoded := [UInt8.ofNat (value >>> 16), UInt8.ofNat (value >>> 8 &&& 0xFF),
          UInt8.ofNat (value &&& 0xFF)]
        let valid := if z = byte '=' then 1 else if w = byte '=' then 2 else 3
        ([], decoded.take valid)
    | input => (input, [])

/-! ### The calls -/

/-- `mime_global_b64`, where `none` is `nil`. -/
def b64 (C D : Option (List UInt8)) : Option (List UInt8) × Option (List UInt8) :=
  match C with
  | none => (none, none)
  | some C =>
      let first := run b64encode [] C
      match D with
      | none =>
          let buffer := first.2 ++ b64pad first.1
          (if buffer.length = 0 then none else some buffer, none)
      | some D =>
          let second := run b64encode first.1 D
          (some (first.2 ++ second.2), some second.1)

/-- `mime_global_unb64`.  At the end it drops what it has kept. -/
def unb64 (C D : Option (List UInt8)) : Option (List UInt8) × Option (List UInt8) :=
  match C with
  | none => (none, none)
  | some C =>
      let first := run b64decode [] C
      match D with
      | none => (if first.2.length = 0 then none else some first.2, none)
      | some D =>
          let second := run b64decode first.1 D
          (some (first.2 ++ second.2), some second.1)

/-- What the calls `A, B = f(B, chunk)` for some chunks and then `f(B)` give out, put together. -/
def incremental
    (f : Option (List UInt8) → Option (List UInt8) → Option (List UInt8) × Option (List UInt8))
    (B : Option (List UInt8)) : List (List UInt8) → List UInt8
  | [] => (f B none).1.getD []
  | chunk :: chunks =>
      (f B (some chunk)).1.getD [] ++ incremental f (f B (some chunk)).2 chunks

/-- The text a string is encoded to. -/
def encoded (s : List UInt8) : List UInt8 :=
  (b64 (some s) none).1.getD []

/-- A string is returned; for the empty one, the calls return `nil`. -/
def Returns (r : Option (List UInt8)) (s : List UInt8) : Prop :=
  r = some s ∨ r = none ∧ s = []

/-- The string is decoded to itself, and dividing it or its text into chunks changes nothing. -/
structure RoundTrip (s : List UInt8) : Prop where
  whole : Returns (unb64 (b64 (some s) none).1 none).1 s
  encoding : ∀ chunks, chunks.flatten = s → incremental b64 (some []) chunks = encoded s
  decoding : ∀ chunks, chunks.flatten = encoded s → incremental unb64 (some []) chunks = s

/-! ### Chunks -/

theorem b64encode_faithful :
  Faithful b64encode
  := by
  intro kept c
  unfold b64encode
  split
  · right
    right
    rfl
  · left
    rfl

theorem b64decode_faithful :
  Faithful b64decode
  := by
  intro kept c
  unfold b64decode
  split
  · right
    left
    rfl
  · split
    · right
      right
      rfl
    · left
      rfl

theorem getD_ite_nil (l : List UInt8) :
  (if l.length = 0 then none else some l).getD [] = l
  := by
  split
  · next hnil => exact (List.length_eq_zero_iff.mp hnil).symm
  · rfl

/-- The calls of `b64` for some chunks are those of the accumulator for pieces. -/
theorem incremental_b64 (kept : List UInt8) (chunks : List (List UInt8)) :
  incremental b64 (some kept) chunks = pieces b64encode b64pad kept chunks
  := by
  induction chunks generalizing kept with
  | nil => apply getD_ite_nil
  | cons chunk chunks ih =>
      have hcall : b64 (some kept) (some chunk) =
          (some (run b64encode [] (kept ++ chunk)).2, some (run b64encode [] (kept ++ chunk)).1) := by
        rw [run_append]
        rfl
      rw [incremental, hcall, ih]
      rfl

theorem incremental_unb64 (kept : List UInt8) (chunks : List (List UInt8)) :
  incremental unb64 (some kept) chunks = pieces b64decode (fun _ => []) kept chunks
  := by
  induction chunks generalizing kept with
  | nil =>
      rw [pieces, List.append_nil]
      apply getD_ite_nil
  | cons chunk chunks ih =>
      have hcall : unb64 (some kept) (some chunk) =
          (some (run b64decode [] (kept ++ chunk)).2, some (run b64decode [] (kept ++ chunk)).1) := by
        rw [run_append]
        rfl
      rw [incremental, hcall, ih]
      rfl

theorem encoded_eq (s : List UInt8) :
  encoded s = (run b64encode [] s).2 ++ b64pad (run b64encode [] s).1
  := getD_ite_nil _

/-- Chunks are encoded to what their concatenation is encoded to. -/
theorem chunks_encoded (chunks : List (List UInt8)) :
  incremental b64 (some []) chunks = encoded chunks.flatten
  := by
  rw [incremental_b64, b64encode_faithful.pieces_eq, encoded_eq]
  rfl

/-- Chunks are decoded to what their concatenation is decoded to. -/
theorem chunks_decoded (chunks : List (List UInt8)) :
  incremental unb64 (some []) chunks = (run b64decode [] chunks.flatten).2
  := by
  rw [incremental_unb64, b64decode_faithful.pieces_eq, List.append_nil]
  rfl

/-! ### Decoding -/

/-- No six bits stand for the character that pads. -/
theorem digit_ne (n : ℕ) :
  digit n ≠ byte '='
  := by
  rcases Nat.lt_or_ge n 64 with hlt | hge
  · have hall : ∀ n < 64, digit n ≠ byte '=' := by decide
    apply hall n hlt
  · rw [digit, List.getD_eq_default]
    · decide
    · apply hge

/-- Three bytes are encoded to four characters. -/
theorem encoded_three (x y z : UInt8) (s : List UInt8) :
  ∃ a b c d, encoded (x :: y :: z :: s) = digit a :: digit b :: digit c :: digit d :: encoded s
  := by
  rw [encoded_eq, encoded_eq]
  exact ⟨_, _, _, _, rfl⟩

/-- Every character is taken for a zero. -/
theorem b64unbase_le (c : UInt8) :
  ¬ b64unbase c > 64
  := by
  change ¬ (0 : UInt8) > 64
  decide

theorem b64decode_four (x y z w : UInt8) :
  b64decode [x, y, z] w =
    ([], List.replicate (if z = byte '=' then 1 else if w = byte '=' then 2 else 3) 0)
  := by
  have hzeros : b64decode [x, y, z] w =
      ([], List.take (if z = byte '=' then 1 else if w = byte '=' then 2 else 3) [0, 0, 0]) := by
    have hunbase : ∀ c, b64unbase c = 0 := fun c => rfl
    rw [b64decode, if_neg (b64unbase_le w)]
    simp [hunbase]
  rw [hzeros]
  split_ifs
  · rfl
  · rfl
  · rfl

/-- Four characters are decoded to zeros, as many as they stand for. -/
theorem run_b64decode_four (x y z w : UInt8) (text : List UInt8) :
  (run b64decode [] (x :: y :: z :: w :: text)).2 =
    List.replicate (if z = byte '=' then 1 else if w = byte '=' then 2 else 3) 0 ++
      (run b64decode [] text).2
  := by
  have hone : ∀ c, b64decode [] c = ([c], []) := by
    intro c
    rw [b64decode, if_neg (b64unbase_le c)]
    rfl
  have htwo : b64decode [x] y = ([x, y], []) := by
    rw [b64decode, if_neg (b64unbase_le y)]
    rfl
  have hthree : b64decode [x, y] z = ([x, y, z], []) := by
    rw [b64decode, if_neg (b64unbase_le z)]
    rfl
  rw [run, run, run, run, hone, htwo, hthree, b64decode_four]
  rfl

/-- What has been encoded is decoded to as many zeros. -/
theorem run_b64decode_encoded : ∀ s : List UInt8,
  (run b64decode [] (encoded s)).2 = List.replicate s.length 0
  | [] => rfl
  | [x] => by
      change (run b64decode [] [digit _, digit _, byte '=', byte '=']).2 = _
      rw [run_b64decode_four, if_pos rfl]
      rfl
  | [x, y] => by
      change (run b64decode [] [digit _, digit _, digit _, byte '=']).2 = _
      rw [run_b64decode_four, if_neg (digit_ne _), if_pos rfl]
      rfl
  | x :: y :: z :: s => by
      obtain ⟨a, b, c, d, htext⟩ := encoded_three x y z s
      rw [htext, run_b64decode_four, if_neg (digit_ne c), if_neg (digit_ne d), run_b64decode_encoded s,
        List.replicate_append_replicate, Nat.add_comm]
      rfl

/-- What has been encoded is returned precisely when it is zeros. -/
theorem returns_iff (s : List UInt8) :
  Returns (unb64 (b64 (some s) none).1 none).1 s ↔ List.replicate s.length 0 = s
  := by
  have hdecoded := run_b64decode_encoded s
  have htext : (b64 (some s) none).1 =
      if (encoded s).length = 0 then none else some (encoded s) := by
    rw [encoded_eq]
    rfl
  rw [htext]
  split
  · next hnil =>
      rw [List.length_eq_zero_iff.mp hnil] at hdecoded
      have hlength : s.length = 0 := by
        rw [← List.length_replicate (n := s.length) (a := (0 : UInt8)), ← hdecoded]
        rfl
      obtain rfl := List.length_eq_zero_iff.mp hlength
      exact iff_of_true (.inr ⟨rfl, rfl⟩) rfl
  · next hne =>
      have hpos : ¬ s.length = 0 := by
        intro hlength
        obtain rfl := List.length_eq_zero_iff.mp hlength
        exact hne rfl
      have hcall : unb64 (some (encoded s)) none = (some (List.replicate s.length 0), none) := by
        unfold unb64
        dsimp only
        rw [hdecoded, List.length_replicate, if_neg hpos]
      rw [hcall]
      constructor
      · rintro (hsome | ⟨hnone, -⟩)
        · exact Option.some.inj hsome
        · cases hnone
      · intro hzeros
        left
        rw [hzeros]

/-- A string is decoded to itself, also in chunks, precisely when all its bytes are zero. -/
theorem base64_round_trip_iff (s : List UInt8) :
  RoundTrip s ↔ ∀ c ∈ s, c = 0
  := by
  have hzeros : List.replicate s.length 0 = s ↔ ∀ c ∈ s, c = 0 := by
    rw [eq_comm, List.eq_replicate_iff]
    apply and_iff_right rfl
  rw [← hzeros]
  constructor
  · intro h
    apply (returns_iff s).mp h.whole
  · intro h
    constructor
    · apply (returns_iff s).mpr h
    · rintro chunks rfl
      apply chunks_encoded
    · intro chunks hchunks
      rw [chunks_decoded, hchunks, run_b64decode_encoded, h]

/-- A byte that is not zero is lost. -/
theorem byte_not_returned :
  ¬ ∀ s, RoundTrip s
  := by
  intro h
  rcases (h [65]).whole with hsome | ⟨-, hnil⟩
  · revert hsome
    decide
  · cases hnil

end Gatepack
