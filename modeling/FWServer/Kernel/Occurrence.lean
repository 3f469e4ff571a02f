import Mathlib.Data.List.Basic
import Mathlib.Data.List.Infix
import Mathlib.Data.Nat.Notation

/-!
# Occurrences

`position sep xs` is the place in a list where another occurs first.
-/

universe u

namespace Occurrence

variable {α : Type u} [DecidableEq α] {sep xs : List α}

/-- The number of elements before the first occurrence of `sep`. -/
def position (sep : List α) : List α → Option ℕ
  | [] => if sep = [] then some 0 else none
  | x :: xs => if sep <+: x :: xs then some 0 else (position sep xs).map (· + 1)

theorem position_of_prefix (h : sep <+: xs) :
  position sep xs = some 0
  := by
  cases xs with
  | nil => exact if_pos (List.prefix_nil.mp h)
  | cons x xs => exact if_pos h

theorem position_tail (hne : xs ≠ []) (h : ¬ sep <+: xs) :
  position sep xs = (position sep xs.tail).map (· + 1)
  := by
  cases xs with
  | nil => exact absurd rfl hne
  | cons x xs => exact if_neg h

theorem position_nil (h : sep ≠ []) :
  position sep [] = none
  := if_neg h

theorem position_eq_some {i : ℕ} (h : position sep xs = some i) :
  sep <+: xs.drop i ∧ ∀ j < i, ¬ sep <+: xs.drop j
  := by
  induction xs generalizing i with
  | nil =>
      rw [position] at h
      split_ifs at h with hsep
      obtain rfl := Option.some.inj h
      rw [hsep]
      exact ⟨List.nil_prefix, fun j hj => absurd hj (Nat.not_lt_zero j)⟩
  | cons x xs ih =>
      rw [position] at h
      split_ifs at h with hpre
      · obtain rfl := Option.some.inj h
        exact ⟨hpre, fun j hj => absurd hj (Nat.not_lt_zero j)⟩
      · obtain ⟨k, hk, rfl⟩ := Option.map_eq_some_iff.mp h
        obtain ⟨hat, hbefore⟩ := ih hk
        refine ⟨hat, ?_⟩
        intro j hj
        cases j with
        | zero => exact hpre
        | succ j => exact hbefore j (Nat.lt_of_succ_lt_succ hj)

theorem position_eq_none (h : position sep xs = none) (i : ℕ) :
  ¬ sep <+: xs.drop i
  := by
  induction xs generalizing i with
  | nil =>
      rw [position] at h
      split_ifs at h with hsep
      rw [List.drop_nil]
      exact fun hpre => hsep (List.prefix_nil.mp hpre)
  | cons x xs ih =>
      rw [position] at h
      split_ifs at h with hpre
      cases i with
      | zero => exact hpre
      | succ i => exact ih (Option.map_eq_none_iff.mp h) i

/-- What comes after an occurrence does not matter. -/
theorem position_append_right {i : ℕ} (h : position sep xs = some i) (after : List α) :
  position sep (xs ++ after) = some i
  := by
  induction xs generalizing i with
  | nil =>
      rw [position] at h
      split_ifs at h with hsep
      obtain rfl := Option.some.inj h
      rw [hsep]
      exact position_of_prefix List.nil_prefix
  | cons x xs ih =>
      rw [position] at h
      split_ifs at h with hpre
      · obtain rfl := Option.some.inj h
        exact position_of_prefix (hpre.trans (List.prefix_append _ after))
      · obtain ⟨k, hk, rfl⟩ := Option.map_eq_some_iff.mp h
        have hlen : sep.length ≤ (x :: xs).length := by
          have hle := (position_eq_some hk).1.length_le
          rw [List.length_drop] at hle
          rw [List.length_cons]
          omega
        have hpre' : ¬ sep <+: x :: (xs ++ after) := by
          intro hpre'
          exact hpre (List.prefix_of_prefix_length_le hpre' (List.prefix_append (x :: xs) after) hlen)
        rw [List.cons_append, position, if_neg hpre', ih hk]
        rfl

/-- A list occurs first where its head does. -/
theorem position_append {a : α} {tail s : List α} (h : a ∉ s) (after : List α) :
  position (a :: tail) (s ++ (a :: tail ++ after)) = some s.length
  := by
  induction s with
  | nil => exact position_of_prefix (List.prefix_append (a :: tail) after)
  | cons b s ih =>
      have hhead : ¬ a :: tail <+: b :: (s ++ (a :: tail ++ after)) := by
        intro hpre
        exact h (List.mem_cons.mpr (Or.inl (List.cons_prefix_cons.mp hpre).1))
      rw [List.cons_append, position_tail (List.cons_ne_nil b _) hhead, List.tail_cons,
        ih fun hmem => h (List.mem_cons_of_mem b hmem)]
      rfl

/-- A list occurs only where its front does. -/
theorem position_none_of_take {t : ℕ} (h : position (sep.take t) xs = none) :
  position sep xs = none
  := by
  cases hfound : position sep xs with
  | none => rfl
  | some i => exact absurd ((List.take_prefix t sep).trans (position_eq_some hfound).1) (position_eq_none h i)

/-- A list that does not occur at the first places occurs first after them. -/
theorem position_drop {n : ℕ} (hn : n ≤ xs.length) (h : ∀ j < n, ¬ sep <+: xs.drop j) :
  position sep xs = (position sep (xs.drop n)).map (· + n)
  := by
  induction n generalizing xs with
  | zero =>
      rw [List.drop_zero]
      apply Option.map_id'.symm
  | succ n ih =>
      cases xs with
      | nil => cases hn
      | cons x xs =>
          have htail : position sep xs = (position sep (xs.drop n)).map (· + n) := by
            apply ih (Nat.le_of_succ_le_succ hn)
            intro j hj
            apply h (j + 1) (Nat.succ_lt_succ hj)
          rw [position_tail (List.cons_ne_nil x xs) (h 0 (Nat.succ_pos n)), List.tail_cons, htail, List.drop_succ_cons,
            Option.map_map]
          rfl

/-- The first place where a list occurs. -/
theorem position_first {n : ℕ} (hn : n ≤ xs.length) (hat : sep <+: xs.drop n) (h : ∀ j < n, ¬ sep <+: xs.drop j) :
  position sep xs = some n
  := by
  rw [position_drop hn h, position_of_prefix hat, Option.map_some, Nat.zero_add]

/-- A list that occurs somewhere is found. -/
theorem not_infix_of_position (h : position sep xs = none) :
  ¬ sep <:+: xs
  := by
  rintro ⟨before, after, rfl⟩
  apply position_eq_none h before.length
  rw [List.append_assoc, List.drop_left]
  apply List.prefix_append

/-- Before the place where a list occurs first it does not occur. -/
theorem not_infix_take {i : ℕ} (h : position sep xs = some i) (hsep : sep ≠ []) :
  ¬ sep <:+: xs.take i
  := by
  rintro ⟨before, after, heq⟩
  have hle := (position_eq_some h).1.length_le
  have hlength := congrArg List.length heq
  have hpos := List.length_pos_iff.mpr hsep
  rw [List.length_append, List.length_append, List.length_take] at hlength
  apply (position_eq_some h).2 before.length (by omega)
  have hdrop : (xs.take i).drop before.length <+: xs.drop before.length := (List.take_prefix i xs).drop before.length
  rw [← heq, List.append_assoc, List.drop_left] at hdrop
  apply (List.prefix_append sep after).trans hdrop

/-- What is found is found as a whole. -/
theorem add_length_le_of_position {i : ℕ} (h : position sep xs = some i) (hsep : sep ≠ []) :
  i + sep.length ≤ xs.length
  := by
  have hle := (position_eq_some h).1.length_le
  have hpos := List.length_pos_iff.mpr hsep
  rw [List.length_drop] at hle
  omega

/-- A list that is longer does not occur. -/
theorem position_of_length_lt (h : xs.length < sep.length) :
  position sep xs = none
  := by
  have hsep : sep ≠ [] := by
    rintro rfl
    exact Nat.not_lt_zero _ h
  cases hfound : position sep xs with
  | none => rfl
  | some i =>
      have hle := add_length_le_of_position hfound hsep
      omega

end Occurrence
