import FWServer.Kernel.Occurrence
import Mathlib.Data.Int.Notation

/-!
# The string library

`string.sub`, and `string.find` for a text that is not a pattern, as `3rd/lua/lstrlib.c` has them.  A string is the
list of its bytes.  Positions count from 1, and those that are negative from the end.

The search takes every byte that the text may start with from `memchr`; `lmemfind_eq` says that it finds the first
occurrence.
-/

namespace Lua

open Occurrence

variable {s p : List UInt8} {pos : ℤ}

/-- `posrelat` -/
def posrelat (pos : ℤ) (len : ℕ) : ℤ :=
  if pos ≥ 0 then pos
  else if -pos > len then 0
  else len + pos + 1

/-- `str_sub` -/
def strSub (s : List UInt8) (i j : ℤ) : List UInt8 :=
  let start := posrelat i s.length
  let stop := posrelat j s.length
  let start := if start < 1 then 1 else start
  let stop := if stop > s.length then (s.length : ℤ) else stop
  if start ≤ stop then (s.drop (start - 1).toNat).take (stop - start + 1).toNat else []

/-- `memchr`: where a byte is among the first `n` bytes. -/
def memchr (s : List UInt8) (c : UInt8) (n : ℕ) : Option ℕ :=
  (s.take n).idxOf? c

theorem memchr_eq_some {c : UInt8} {n k : ℕ} (h : memchr s c n = some k) :
  k < n ∧ s[k]? = some c ∧ ∀ j < k, s[j]? ≠ some c
  := by
  obtain ⟨hlt, hat, hbefore⟩ := List.idxOf?_eq_some_iff.mp h
  rw [List.length_take] at hlt
  rw [List.getElem_take] at hat
  refine ⟨by omega, ?_, ?_⟩
  · rw [List.getElem?_eq_getElem (by omega), hat]
  · intro j hj heq
    apply hbefore j hj
    rw [List.getElem_take]
    apply Option.some.inj
    rw [← List.getElem?_eq_getElem, heq]

/-- The loop of `lmemfind`, for a text that starts with `c`. -/
def lmemfindLoop (c : UInt8) (s2 : List UInt8) (s1 : List UInt8) (l1 : ℕ) : Option ℕ :=
  match h : memchr s1 c l1 with
  | none => none
  | some k =>
      if (s1.drop (k + 1)).take s2.length = s2 then some k
      else (lmemfindLoop c s2 (s1.drop (k + 1)) (l1 - (k + 1))).map (· + (k + 1))
termination_by l1
decreasing_by
  have hlt := (memchr_eq_some h).1
  omega

/-- `lmemfind` -/
def lmemfind (s1 : List UInt8) : List UInt8 → Option ℕ
  | [] => some 0
  | c :: s2 => if (c :: s2).length > s1.length then none else lmemfindLoop c s2 s1 (s1.length - s2.length)

/-- `str_find_aux` for `string.find(s, p, pos, true)` -/
def strFind (s p : List UInt8) (pos : ℤ) : Option (ℤ × ℤ) :=
  let init := posrelat pos s.length
  let init := if init < 1 then 1 else init
  if init > s.length + 1 then none
  else (lmemfind (s.drop (init - 1).toNat) p).map fun s2 : ℕ => (init - 1 + s2 + 1, init - 1 + s2 + p.length)

/-! ### What is found -/

theorem prefix_drop_iff {c : UInt8} {s1 s2 : List UInt8} {k : ℕ} :
  c :: s2 <+: s1.drop k ↔ s1[k]? = some c ∧ (s1.drop (k + 1)).take s2.length = s2
  := by
  cases hdrop : s1.drop k with
  | nil =>
      have hle := List.drop_eq_nil_iff.mp hdrop
      rw [List.getElem?_eq_none hle]
      apply iff_of_false
      · intro h
        cases List.prefix_nil.mp h
      · rintro ⟨h, -⟩
        cases h
  | cons d rest =>
      have hget : s1[k]? = some d := by
        rw [← List.head?_drop, hdrop]
        rfl
      have hrest : s1.drop (k + 1) = rest := by
        rw [← List.tail_drop, hdrop]
        rfl
      rw [List.cons_prefix_cons, hget, hrest, Option.some_inj, List.prefix_iff_eq_take, eq_comm (a := c),
        eq_comm (a := s2)]

/-- The loop finds the first occurrence. -/
theorem lmemfindLoop_eq (c : UInt8) (s2 s1 : List UInt8) (l1 : ℕ) (h : l1 + s2.length = s1.length) :
  lmemfindLoop c s2 s1 l1 = position (c :: s2) s1
  := by
  induction l1 using Nat.strong_induction_on generalizing s1 with
  | _ l1 ih =>
      rw [lmemfindLoop]
      split
      · next hnone =>
          -- where the text occurs its first byte would be seen
          symm
          rw [Option.eq_none_iff_forall_ne_some]
          intro i hi
          have hle := add_length_le_of_position hi (List.cons_ne_nil c s2)
          have hat := prefix_drop_iff.mp (position_eq_some hi).1
          rw [List.length_cons] at hle
          rw [memchr, List.idxOf?_eq_none_iff] at hnone
          apply hnone
          apply List.mem_of_getElem? (i := i)
          rw [List.getElem?_take_of_lt (by omega)]
          apply hat.1
      · next k hk =>
          obtain ⟨hlt, hat, hbefore⟩ := memchr_eq_some hk
          have hnone : ∀ j < k, ¬ c :: s2 <+: s1.drop j :=
            fun j hj hpre => hbefore j hj (prefix_drop_iff.mp hpre).1
          split_ifs with htail
          · symm
            apply position_first (by omega) _ hnone
            apply prefix_drop_iff.mpr ⟨hat, htail⟩
          · rw [position_drop (n := k + 1) (by omega), ih (l1 - (k + 1)) (by omega)]
            · rw [List.length_drop]
              omega
            · intro j hj hpre
              rcases Nat.lt_succ_iff_lt_or_eq.mp hj with hj | rfl
              · apply hnone j hj hpre
              · apply htail (prefix_drop_iff.mp hpre).2

theorem lmemfind_eq (s1 : List UInt8) (hp : p ≠ []) :
  lmemfind s1 p = position p s1
  := by
  cases p with
  | nil => contradiction
  | cons c s2 =>
      rw [lmemfind]
      split_ifs with hlong
      · apply (position_of_length_lt hlong).symm
      · rw [List.length_cons] at hlong
        apply lmemfindLoop_eq
        omega

/-- The first position is called 0 as well. -/
theorem start_eq (hpos : 0 ≤ pos) (len : ℕ) :
  (if posrelat pos len < 1 then 1 else posrelat pos len) = ((pos - 1).toNat : ℤ) + 1
  := by
  rw [posrelat, if_pos hpos]
  split_ifs
  · omega
  · omega

/-- A search does not start before the position. -/
theorem le_start (pos : ℤ) (len : ℕ) :
  pos ≤ (if posrelat pos len < 1 then 1 else posrelat pos len)
    ∧ 1 ≤ (if posrelat pos len < 1 then 1 else posrelat pos len)
  := by
  unfold posrelat
  split_ifs
  all_goals omega

/-- From the position on the text is found where it occurs first. -/
theorem strFind_eq (hp : p ≠ []) (hpos : 0 ≤ pos) (hle : pos ≤ s.length + 1) :
  strFind s p pos = (position p (s.drop (pos - 1).toNat)).map fun i : ℕ =>
    (((pos - 1).toNat + i : ℤ) + 1, ((pos - 1).toNat + i : ℤ) + p.length)
  := by
  unfold strFind
  dsimp only
  rw [start_eq hpos, if_neg (by omega), Int.add_sub_cancel, lmemfind_eq _ hp]
  rfl

/-- What is found comes after the position. -/
theorem strFind_bounds {st sp : ℤ} (hp : p ≠ []) (h : strFind s p pos = some (st, sp)) :
  pos ≤ sp ∧ sp ≤ s.length
  := by
  have hlength := List.length_pos_iff.mpr hp
  obtain ⟨hpos, hone⟩ := le_start pos s.length
  unfold strFind at h
  dsimp only at h
  rw [lmemfind_eq _ hp] at h
  generalize (if posrelat pos s.length < 1 then 1 else posrelat pos s.length) = init at h hpos hone
  split_ifs at h with hlong
  obtain ⟨i, hi, heq⟩ := Option.map_eq_some_iff.mp h
  obtain ⟨-, rfl⟩ := Prod.mk.inj heq
  have hle := add_length_le_of_position hi hp
  rw [List.length_drop] at hle
  omega

/-! ### Parts of a string -/

/-- The part of a string from a position to another. -/
theorem strSub_of_stop (hpos : 0 ≤ pos) {j : ℤ} {n : ℕ}
    (hstop : (if posrelat j s.length > s.length then (s.length : ℤ) else posrelat j s.length) = n) :
  strSub s pos j = (s.drop (pos - 1).toNat).take (n - (pos - 1).toNat)
  := by
  unfold strSub
  dsimp only
  rw [start_eq hpos, hstop, Int.add_sub_cancel, Int.toNat_natCast]
  split_ifs
  · congr 1
    omega
  · have hnone : n - (pos - 1).toNat = 0 := by omega
    rw [hnone, List.take_zero]

theorem strSub_eq (hpos : 0 ≤ pos) {n : ℕ} (hn : n ≤ s.length) :
  strSub s pos n = (s.drop (pos - 1).toNat).take (n - (pos - 1).toNat)
  := by
  apply strSub_of_stop hpos
  rw [posrelat, if_pos (Int.natCast_nonneg n), if_neg (by omega)]

/-- The rest of a string. -/
theorem strSub_rest (hpos : 0 ≤ pos) :
  strSub s pos (-1) = s.drop (pos - 1).toNat
  := by
  rw [strSub_of_stop (n := s.length) hpos, ← List.length_drop, List.take_length]
  unfold posrelat
  split_ifs
  all_goals omega

end Lua
