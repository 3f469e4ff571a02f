import FWServer.Lua.Strings

/-!
# Splitting strings

`string.split` of `util/function.lua`: the pieces of a string that are between the occurrences of a delimiter, which
are found from the left, each after the one before.

Joined with the delimiter the pieces are the string again, and the delimiter occurs in none of them (`split_joins`).
-/

namespace Lua

open Occurrence

variable {input delimiter : List UInt8}

/-- The loop of `string.split`, from a position on. -/
def splitLoop (input delimiter : List UInt8) (hdelimiter : delimiter ≠ []) (pos : ℤ) : List (List UInt8) :=
  match h : strFind input delimiter pos with
  | some (st, sp) => strSub input pos (st - 1) :: splitLoop input delimiter hdelimiter (sp + 1)
  | none => [strSub input pos (-1)]
termination_by (input.length + 1 - pos).toNat
decreasing_by
  obtain ⟨hpos, hle⟩ := strFind_bounds hdelimiter h
  omega

/-- `string.split`; `none` stands for `false`. -/
def split (input delimiter : List UInt8) : Option (List (List UInt8)) :=
  if h : delimiter = [] then none else some (splitLoop input delimiter h 0)

/-- There is always a last piece. -/
theorem splitLoop_ne_nil (hdelimiter : delimiter ≠ []) (pos : ℤ) :
  splitLoop input delimiter hdelimiter pos ≠ []
  := by
  rw [splitLoop]
  split
  · apply List.cons_ne_nil
  · apply List.cons_ne_nil

/-- What comes before an occurrence, the occurrence, and what comes after it. -/
theorem take_append_occurrence {s : List UInt8} {i : ℕ} (h : position delimiter s = some i) :
  s.take i ++ delimiter ++ s.drop (i + delimiter.length) = s
  := by
  have hat := List.prefix_iff_eq_take.mp (position_eq_some h).1
  calc s.take i ++ delimiter ++ s.drop (i + delimiter.length)
      = s.take i ++ (delimiter ++ (s.drop i).drop delimiter.length) := by rw [List.append_assoc, List.drop_drop]
    _ = s.take i ++ ((s.drop i).take delimiter.length ++ (s.drop i).drop delimiter.length) := by rw [← hat]
    _ = s.take i ++ s.drop i := by rw [List.take_append_drop]
    _ = s := List.take_append_drop i s

/-- The pieces from a position on make up what comes from there, and have no occurrence. -/
theorem splitLoop_joins (hdelimiter : delimiter ≠ []) (pos : ℤ) (hpos : 0 ≤ pos) (hle : pos ≤ input.length + 1) :
  delimiter.intercalate (splitLoop input delimiter hdelimiter pos) = input.drop (pos - 1).toNat
    ∧ ∀ piece ∈ splitLoop input delimiter hdelimiter pos, ¬ delimiter <:+: piece
  := by
  fun_induction splitLoop input delimiter hdelimiter pos with
  | case1 pos st sp hfound ih =>
      have hbounds := strFind_bounds hdelimiter hfound
      rw [strFind_eq hdelimiter hpos hle] at hfound
      obtain ⟨i, hi, heq⟩ := Option.map_eq_some_iff.mp hfound
      obtain ⟨rfl, rfl⟩ := Prod.mk.inj heq
      have hwhole := add_length_le_of_position hi hdelimiter
      rw [List.length_drop] at hwhole
      obtain ⟨hjoin, hpieces⟩ := ih (by omega) (by omega)
      have hpiece : strSub input pos (((pos - 1).toNat + i : ℤ) + 1 - 1) = (input.drop (pos - 1).toNat).take i := by
        have hstop : ((pos - 1).toNat + i : ℤ) + 1 - 1 = ((pos - 1).toNat + i : ℕ) := by omega
        rw [hstop, strSub_eq hpos (by omega), Nat.add_sub_cancel_left]
      have hnext : (((pos - 1).toNat + i : ℤ) + delimiter.length + 1 - 1).toNat =
          (pos - 1).toNat + (i + delimiter.length) := by omega
      rw [hnext, ← List.drop_drop] at hjoin
      rw [hpiece]
      constructor
      · rw [List.intercalate_cons_of_ne_nil (splitLoop_ne_nil _ _), hjoin, take_append_occurrence hi]
      · intro piece hmem
        rcases List.mem_cons.mp hmem with rfl | hmem
        · apply not_infix_take hi hdelimiter
        · apply hpieces piece hmem
  | case2 pos hnone =>
      rw [strFind_eq hdelimiter hpos hle, Option.map_eq_none_iff] at hnone
      rw [strSub_rest hpos]
      constructor
      · apply List.intercalate_singleton
      · intro piece hmem
        obtain rfl := List.mem_singleton.mp hmem
        apply not_infix_of_position hnone

/-- For a delimiter that is not empty `string.split` returns pieces that make up the string again when they are joined
with the delimiter, and in none of which it occurs. -/
theorem split_joins (input : List UInt8) (hdelimiter : delimiter ≠ []) :
  ∃ pieces, split input delimiter = some pieces ∧ delimiter.intercalate pieces = input
    ∧ ∀ piece ∈ pieces, ¬ delimiter <:+: piece
  := by
  use splitLoop input delimiter hdelimiter 0
  constructor
  · apply dif_neg hdelimiter
  · apply splitLoop_joins hdelimiter 0 (Int.le_refl 0)
    omega

/-- A delimiter that overlaps itself, at the end of the string. -/
theorem split_joins_overlapping :
  ([97, 97] : List UInt8) ≠ [] ∧
    ∃ pieces, split [98, 97, 97, 97] [97, 97] = some pieces ∧ [97, 97].intercalate pieces = [98, 97, 97, 97]
      ∧ ∀ piece ∈ pieces, ¬ [97, 97] <:+: piece
  := ⟨List.cons_ne_nil _ _, split_joins [98, 97, 97, 97] (List.cons_ne_nil _ _)⟩

example : split [98, 97, 97, 97] [97, 97] = some [[98], [97]] := by decide +kernel

end Lua
