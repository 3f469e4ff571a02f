import FWServer.Kernel.Decimal
import FWServer.Kernel.Occurrence
import Mathlib.Algebra.Group.Int.Defs
import Mathlib.Algebra.Group.Nat.Defs

/-!
# The redis protocol

A request is an array of bulk strings, which `request` reads from the bytes that are sent.  A reply is a tree, of
which `Reply.encode` is the encoding.
-/

namespace Resp

open Decimal (digits signed value isDigit)
open Occurrence (position)

/-- The end of a line. -/
def crlf : List UInt8 := [13, 10]

/-- A text on one line. -/
structure Line where
  text : List UInt8
  cr : 13 ∉ text
  lf : 10 ∉ text

/-- A string that is sent with its length.  The protocol allows for 512 MB; here the length of the string and the end of
its line fits an `int`. -/
structure Bulk where
  bytes : List UInt8
  lt : bytes.length + 2 < 2 ^ 31

/-- A reply; integers and the lengths of arrays have 64 bits. -/
inductive Reply where
  | status (line : Line)
  | error (line : Line)
  | integer (n : ℤ) (le : -2 ^ 63 ≤ n) (lt : n < 2 ^ 63)
  | bulk (s : Bulk)
  | nilBulk
  | nilArray
  | array (n : ℕ) (lt : n < 2 ^ 63) (items : Fin n → Reply)

/-- A line that starts with a byte. -/
def header (first : UInt8) (s : List UInt8) : List UInt8 :=
  first :: s ++ crlf

/-- A string as it is sent. -/
def encodeBulk (s : List UInt8) : List UInt8 :=
  header 36 (digits s.length) ++ s ++ crlf

/-- An array of strings as it is sent. -/
def encodeBulks (l : List (List UInt8)) : List UInt8 :=
  header 42 (digits l.length) ++ l.flatMap encodeBulk

/-- A reply as it is sent. -/
def Reply.encode : Reply → List UInt8
  | .status line => header 43 line.text
  | .error line => header 45 line.text
  | .integer n _ _ => header 58 (signed n)
  | .bulk s => encodeBulk s.bytes
  | .nilBulk => header 36 (signed (-1))
  | .nilArray => header 42 (signed (-1))
  | .array n _ items => header 42 (digits n) ++ (List.ofFn fun i => (items i).encode).flatten

/-- Whether an error occurs in a reply. -/
def Reply.HasError : Reply → Prop
  | .error _ => True
  | .array _ _ items => ∃ i, (items i).HasError
  | _ => False

/-- A line, and what comes after it. -/
def line (bytes : List UInt8) : Option (List UInt8 × List UInt8) :=
  (position crlf bytes).map fun i => (bytes.take i, bytes.drop (i + 2))

/-- The number on a line that starts with a byte, and what comes after the line. -/
def number (first : UInt8) (bytes : List UInt8) : Option (ℕ × List UInt8) :=
  match line bytes with
  | some (c :: s, after) => if c = first ∧ s ≠ [] ∧ s.all isDigit then some (value s, after) else none
  | _ => none

/-- A string that is sent with its length, and what comes after it. -/
def bulk (bytes : List UInt8) : Option (List UInt8 × List UInt8) :=
  match number 36 bytes with
  | some (n, after) => if crlf <+: after.drop n then some (after.take n, after.drop (n + 2)) else none
  | none => none

/-- So many strings, and what comes after them. -/
def bulks : ℕ → List UInt8 → Option (List (List UInt8) × List UInt8)
  | 0, bytes => some ([], bytes)
  | n + 1, bytes =>
      match bulk bytes with
      | some (s, after) => (bulks n after).map fun (l, after) => (s :: l, after)
      | none => none

/-- A request as the server reads it: an array of strings, and what comes after it. -/
def request (bytes : List UInt8) : Option (List (List UInt8) × List UInt8) :=
  match number 42 bytes with
  | some (n, after) => bulks n after
  | none => none

theorem line_append {s : List UInt8} (h : 13 ∉ s) (after : List UInt8) :
  line (s ++ (crlf ++ after)) = some (s, after)
  := by
  have hposition : position crlf (s ++ (crlf ++ after)) = some s.length := Occurrence.position_append h after
  rw [line, hposition, Option.map_some, List.take_left, ← List.drop_drop, List.drop_left]
  rfl

/-- No end of a line is in the notation of a number. -/
theorem cr_notMem_digits (n : ℕ) :
  13 ∉ digits n
  := by
  intro h
  exact absurd (Decimal.isDigit_of_mem h) (by decide)

theorem cr_notMem_signed (n : ℤ) :
  13 ∉ signed n
  := by
  rw [signed]
  split_ifs
  · rw [List.mem_cons, not_or]
    exact ⟨by decide, cr_notMem_digits _⟩
  · exact cr_notMem_digits _

theorem line_header {first : UInt8} {s : List UInt8} (hfirst : first ≠ 13) (h : 13 ∉ s) (after : List UInt8) :
  line (header first s ++ after) = some (first :: s, after)
  := by
  have hmem : 13 ∉ first :: s := by
    rw [List.mem_cons, not_or]
    exact ⟨hfirst.symm, h⟩
  rw [header, List.append_assoc]
  exact line_append hmem after

theorem number_header {first : UInt8} (hfirst : first ≠ 13) (n : ℕ) (after : List UInt8) :
  number first (header first (digits n) ++ after) = some (n, after)
  := by
  have hdigits : (digits n).all isDigit = true := List.all_eq_true.mpr fun c hc => Decimal.isDigit_of_mem hc
  rw [number, line_header hfirst (cr_notMem_digits n)]
  dsimp only
  rw [if_pos ⟨rfl, Decimal.digits_ne_nil n, hdigits⟩, Decimal.value_digits]

theorem bulk_encodeBulk (s after : List UInt8) :
  bulk (encodeBulk s ++ after) = some (s, after)
  := by
  rw [bulk, encodeBulk, List.append_assoc, List.append_assoc, number_header (by decide)]
  dsimp only
  rw [List.drop_left, if_pos (List.prefix_append crlf after), List.take_left, ← List.drop_drop, List.drop_left]
  rfl

theorem bulks_flatMap (l : List (List UInt8)) (after : List UInt8) :
  bulks l.length (l.flatMap encodeBulk ++ after) = some (l, after)
  := by
  induction l with
  | nil => rfl
  | cons s l ih =>
      rw [List.length_cons, List.flatMap_cons, List.append_assoc, bulks, bulk_encodeBulk]
      dsimp only
      rw [ih]
      rfl

/-- What is sent is read back. -/
theorem request_encodeBulks (l : List (List UInt8)) (after : List UInt8) :
  request (encodeBulks l ++ after) = some (l, after)
  := by
  rw [request, encodeBulks, List.append_assoc, number_header (by decide)]
  exact bulks_flatMap l after

end Resp
