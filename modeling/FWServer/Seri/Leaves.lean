import FWServer.Seri.Stream
import Mathlib.Tactic.NormNum

/-!
# Objects that are not tables

What packing writes of an object that is not a table is a token that stands for the object, whatever comes
after it: `wbInteger_writes` for the size classes of integers, `wbString_writes` for those of strings.
-/

namespace Seri

open LittleEndian (toInt toInt_of_lt)

/-! ### Type and cookie -/

theorem combineType_spec {t v : ℕ} (ht : t < 8) (hv : v < 32) :
  typeOf (combineType t v) = t ∧ cookieOf (combineType t v) = v
  := by
  have hall : ∀ (t : Fin 8) (v : Fin 32),
      typeOf (combineType t.val v.val) = t.val ∧ cookieOf (combineType t.val v.val) = v.val := by
    decide +kernel
  exact hall ⟨t, ht⟩ ⟨v, hv⟩

/-- The bytes are a type and a cookie, and what follows stands for the token. -/
def Spells (bs : List UInt8) (token : Token) : Prop :=
  ∃ t v : ℕ, ∃ tail, t < 8 ∧ v < 32 ∧ bs = combineType t v :: tail ∧
    ∀ rest, takeToken t v (tail ++ rest) = some (token, rest)

/-- The bytes are those of an integer. -/
def SpellsInteger (bs : List UInt8) (n : ℤ) : Prop :=
  ∃ v : ℕ, ∃ tail, v < 32 ∧ v ≠ TYPE_NUMBER_REAL ∧ bs = combineType TYPE_NUMBER v :: tail ∧
    ∀ rest, takeInteger v (tail ++ rest) = some (n, rest)

/-! ### Numbers -/

theorem takeBytes_encode (k n : ℕ) (rest : List UInt8) :
  takeBytes k (LittleEndian.encode k n ++ rest) = some (LittleEndian.encode k n, rest)
  := by
  have happend := takeBytes_append (LittleEndian.encode k n) rest
  rwa [LittleEndian.length_encode] at happend

/-- An integer that is written in `k` bytes after its cookie `v`, and read back from them by `f`. -/
theorem sized_writes (wb : WriteBlock) {n : ℤ} {v k : ℕ} (f : ℕ → ℤ) (hv : v < 32)
    (hreal : v ≠ TYPE_NUMBER_REAL)
    (htake : ∀ bs, takeInteger v bs = (takeBytes k bs).map fun x => (f (LittleEndian.decode x.1), x.2))
    (hf : f (LittleEndian.decode (LittleEndian.encodeInt k n)) = n) :
  ∃ bs, ((wb.push [combineType TYPE_NUMBER v]).push (LittleEndian.encodeInt k n)).contents =
      wb.contents ++ bs ∧ SpellsInteger bs n
  := by
  use combineType TYPE_NUMBER v :: LittleEndian.encodeInt k n
  constructor
  · rw [WriteBlock.contents_push, WriteBlock.contents_push, List.append_assoc, List.singleton_append]
  · use v, LittleEndian.encodeInt k n, hv, hreal, rfl
    intro rest
    have hbytes : takeBytes k (LittleEndian.encodeInt k n ++ rest) =
        some (LittleEndian.encodeInt k n, rest) := takeBytes_encode k _ rest
    rw [htake, hbytes, Option.map_some, hf]

/-- The size classes of an integer. -/
theorem wbInteger_writes (wb : WriteBlock) {n : ℤ} (hmin : -2 ^ 63 ≤ n) (hmax : n < 2 ^ 63) :
  ∃ bs, (wbInteger wb n).contents = wb.contents ++ bs ∧ SpellsInteger bs n
  := by
  have hunsigned {k : ℕ} (hnonneg : 0 ≤ n) (hlt : n < 256 ^ k) :
      (LittleEndian.decode (LittleEndian.encodeInt k n) : ℤ) = n := by
    rw [LittleEndian.decode_encodeInt, Int.emod_eq_of_lt hnonneg hlt]
  have hdword (hint : n = toInt n) :
      (LittleEndian.decode (LittleEndian.encodeInt 4 n) : ℤ).bmod (2 ^ 32) = n :=
    (LittleEndian.bmod_decode_encodeInt 4 n).trans hint.symm
  have hqword : (LittleEndian.decode (LittleEndian.encodeInt 8 n) : ℤ).bmod (2 ^ 64) = n := by
    apply (LittleEndian.bmod_decode_encodeInt 8 n).trans
    exact Int.bmod_eq_of_le (by norm_num; omega) (by norm_num; omega)
  unfold wbInteger
  split_ifs with hzero hwide hneg hbyte hword
  · use [combineType TYPE_NUMBER TYPE_NUMBER_ZERO], WriteBlock.contents_push wb _
    use TYPE_NUMBER_ZERO, [], by decide, by decide, rfl
    intro rest
    rw [hzero]
    rfl
  · exact sized_writes wb (fun m => (m : ℤ).bmod (2 ^ 64)) (by decide) (by decide) (fun _ => rfl) hqword
  · exact sized_writes wb (fun m => (m : ℤ).bmod (2 ^ 32)) (by decide) (by decide) (fun _ => rfl)
      (hdword (not_not.mp hwide))
  · exact sized_writes wb (fun m => m) (by decide) (by decide) (fun _ => rfl)
      (hunsigned (Int.not_lt.mp hneg) hbyte)
  · exact sized_writes wb (fun m => m) (by decide) (by decide) (fun _ => rfl)
      (hunsigned (Int.not_lt.mp hneg) hword)
  · exact sized_writes wb (fun m => (m : ℤ).bmod (2 ^ 32)) (by decide) (by decide) (fun _ => rfl)
      (hdword (not_not.mp hwide))

theorem SpellsInteger.spells {bs : List UInt8} {n : Int64} (h : SpellsInteger bs n.toInt) :
  Spells bs (.plain (.integer n))
  := by
  obtain ⟨v, tail, hv, hreal, hbs, htake⟩ := h
  use TYPE_NUMBER, v, tail, by decide, hv, hbs
  intro rest
  simp only [takeToken, if_neg hreal, htake rest, Option.map_some, Int64.ofInt_toInt]

/-! ### The writers -/

/-- A writer that has written a token. -/
def Writes (wb wb' : WriteBlock) (token : Token) : Prop :=
  ∃ bs, wb'.contents = wb.contents ++ bs ∧ Spells bs token

theorem wbNil_writes (wb : WriteBlock) :
  Writes wb (wbNil wb) (.plain .nil)
  := by
  use [combineType TYPE_NIL 0], WriteBlock.contents_push wb _
  use TYPE_NIL, 0, [], by decide, by decide, rfl
  intro rest
  rfl

theorem wbBoolean_writes (wb : WriteBlock) (b : Bool) :
  Writes wb (wbBoolean wb b) (.plain (.boolean b))
  := by
  use [combineType TYPE_BOOLEAN (if b then 1 else 0)], WriteBlock.contents_push wb _
  use TYPE_BOOLEAN, if b then 1 else 0, [], by decide
  cases b with
  | true => exact ⟨by decide, rfl, fun _ => rfl⟩
  | false => exact ⟨by decide, rfl, fun _ => rfl⟩

/-- A type and a cookie, and bytes after them. -/
theorem push_writes (wb : WriteBlock) {t v : ℕ} {tail : List UInt8} {token : Token} (ht : t < 8)
    (hv : v < 32) (htake : ∀ rest, takeToken t v (tail ++ rest) = some (token, rest)) :
  Writes wb ((wb.push [combineType t v]).push tail) token
  := by
  use combineType t v :: tail
  constructor
  · rw [WriteBlock.contents_push, WriteBlock.contents_push, List.append_assoc, List.singleton_append]
  · exact ⟨t, v, tail, ht, hv, rfl, htake⟩

theorem decode_encode_toNat (n : UInt64) :
  UInt64.ofNat (LittleEndian.decode (LittleEndian.encode 8 n.toNat)) = n
  := by
  have hlt : n.toNat < 256 ^ 8 := n.toNat_lt
  rw [LittleEndian.decode_encode hlt, UInt64.ofNat_toNat]

theorem wbReal_writes (wb : WriteBlock) (bits : UInt64) :
  Writes wb (wbReal wb bits) (.plain (.number bits))
  := by
  apply push_writes wb (by decide) (by decide)
  intro rest
  simp only [takeToken, takeBytes_encode, Option.map_some, decode_encode_toNat, if_true]

theorem wbPointer_writes (wb : WriteBlock) (p : UInt64) :
  Writes wb (wbPointer wb p) (.plain (.lightuserdata p))
  := by
  apply push_writes wb (by decide) (by decide)
  intro rest
  simp only [takeToken, takeBytes_encode, Option.map_some, decode_encode_toNat]

theorem takeString_append (s rest : List UInt8) :
  takeString s.length (s ++ rest) = some (.plain (.string s), rest)
  := by
  rw [takeString, takeBytes_append, Option.map_some]

/-- A long string, whose length is written in `k` bytes. -/
theorem longString_writes (wb : WriteBlock) {s : List UInt8} {v k : ℕ} (hv : v < 32)
    (hlt : s.length < 256 ^ k)
    (htake : ∀ bs, takeToken TYPE_LONG_STRING v bs = (takeBytes k bs).bind fun x =>
      if LittleEndian.decode x.1 < 2 ^ 31 then takeString (LittleEndian.decode x.1) x.2
      else some (.huge, x.2)) (hs : s.length < 2 ^ 31) :
  Writes wb (((wb.push [combineType TYPE_LONG_STRING v]).push
    (LittleEndian.encodeInt k s.length)).push s) (.plain (.string s))
  := by
  have hdecode : LittleEndian.decode (LittleEndian.encodeInt k s.length) = s.length := by
    have hmod := LittleEndian.decode_encodeInt k s.length
    rw [Int.emod_eq_of_lt (Int.natCast_nonneg _) (by exact_mod_cast hlt)] at hmod
    exact_mod_cast hmod
  use combineType TYPE_LONG_STRING v :: (LittleEndian.encodeInt k s.length ++ s)
  constructor
  · rw [WriteBlock.contents_push, WriteBlock.contents_push, WriteBlock.contents_push,
      List.append_assoc, List.append_assoc, List.singleton_append]
  · use TYPE_LONG_STRING, v, LittleEndian.encodeInt k s.length ++ s, by decide, hv, rfl
    intro rest
    have hbytes : takeBytes k (LittleEndian.encodeInt k s.length ++ (s ++ rest)) =
        some (LittleEndian.encodeInt k s.length, s ++ rest) := takeBytes_encode k _ _
    rw [htake, List.append_assoc, hbytes, Option.bind_some, hdecode, if_pos hs, takeString_append]

/-- The three size classes of a string. -/
theorem wbString_writes (wb : WriteBlock) {s : List UInt8} (hs : s.length < 2 ^ 31) :
  Writes wb (wbString wb s (toInt s.length)) (.plain (.string s))
  := by
  have htake : s.take (s.length : ℤ).toNat = s := by
    rw [Int.toNat_natCast, List.take_length]
  rw [toInt_of_lt hs, wbString]
  split_ifs with hshort hempty hword
  · rw [htake]
    exact push_writes wb (by decide) (Int.ofNat_lt.mp hshort) (takeString_append s)
  · have hnil : s = [] := List.length_eq_zero_iff.mp (by omega)
    rw [hnil]
    use [combineType TYPE_SHORT_STRING 0], WriteBlock.contents_push wb _
    exact ⟨TYPE_SHORT_STRING, 0, [], by decide, by decide, rfl, takeString_append []⟩
  · have hlt : s.length < 256 ^ 2 := Int.ofNat_lt.mp hword
    rw [htake]
    apply longString_writes wb (by decide) hlt _ hs
    intro bs
    change ((takeBytes 2 bs).bind fun x => takeString (LittleEndian.decode x.1) x.2) = _
    cases hx : takeBytes 2 bs with
    | none => rfl
    | some x =>
        have hsmall := LittleEndian.decode_lt x.1
        rw [takeBytes_fst hx] at hsmall
        rw [Option.bind_some, Option.bind_some, if_pos (by omega)]
  · rw [htake]
    exact longString_writes wb (by decide) (by omega) (fun _ => rfl) hs

end Seri
