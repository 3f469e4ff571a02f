import Mathlib.Data.Int.Notation
import Mathlib.Data.List.Basic
import Mathlib.Logic.Function.Basic

/-!
# Arrays in use up to a bound

An array `a : ℕ → α` of which the first `n` elements are in use stands for the list `firsts a n`.  The loops by
which such an array is kept sorted are related to lists here: making room for an element, by moving those
behind it or by copying all to another array, is insertion; moving the elements that are kept to the front is
filtering; and a binary search finds an element or the place where it belongs.
-/

universe u

/-- The first `n` elements of an array. -/
def firsts {α : Type u} (a : ℕ → α) (n : ℕ) : List α :=
  (List.range n).map a

section Firsts

variable {α : Type u} {a a' : ℕ → α} {n : ℕ}

@[simp]
theorem length_firsts (a : ℕ → α) (n : ℕ) :
  (firsts a n).length = n
  := by rw [firsts, List.length_map, List.length_range]

theorem getElem?_firsts (a : ℕ → α) {i n : ℕ} (h : i < n) :
  (firsts a n)[i]? = some (a i)
  := by rw [firsts, List.getElem?_map, List.getElem?_range h, Option.map_some]

theorem mem_firsts {x : α} :
  x ∈ firsts a n ↔ ∃ i, i < n ∧ a i = x
  := by simp [firsts]

theorem firsts_succ (a : ℕ → α) (n : ℕ) :
  firsts a (n + 1) = firsts a n ++ [a n]
  := by rw [firsts, firsts, List.range_succ, List.map_append, List.map_singleton]

theorem firsts_congr (h : ∀ i, i < n → a' i = a i) :
  firsts a' n = firsts a n
  := List.map_congr_left fun i hi => h i (List.mem_range.mp hi)

/-- An array that has `x` at the place `b`, and the elements from there on one place further, stands for the
list with `x` inserted. -/
theorem firsts_insert {x : α} {b : ℕ} (hb : b ≤ n) (hbelow : ∀ i, i < b → a' i = a i) (hat : a' b = x)
    (habove : ∀ i, b ≤ i → i < n → a' (i + 1) = a i) :
  firsts a' (n + 1) = (firsts a n).take b ++ x :: (firsts a n).drop b
  := by
  apply List.ext_getElem?
  intro i
  rcases Nat.lt_or_ge i (n + 1) with hi | hi
  · rw [getElem?_firsts a' hi]
    rcases Nat.lt_trichotomy i b with hlt | rfl | hgt
    · have hlen : i < ((firsts a n).take b).length := by
        rw [List.length_take, length_firsts]
        omega
      rw [List.getElem?_append_left hlen, List.getElem?_take_of_lt hlt, getElem?_firsts a (by omega),
        hbelow i hlt]
    · have hlen : ((firsts a n).take i).length = i := by
        rw [List.length_take, length_firsts]
        omega
      rw [List.getElem?_append_right (by omega), hlen, Nat.sub_self, List.getElem?_cons_zero, hat]
    · obtain ⟨j, rfl⟩ := Nat.exists_eq_succ_of_ne_zero (Nat.ne_of_gt (Nat.zero_lt_of_lt hgt))
      have hlen : ((firsts a n).take b).length = b := by
        rw [List.length_take, length_firsts]
        omega
      have hsub : j.succ - b = (j - b) + 1 := by omega
      rw [List.getElem?_append_right (by omega), hlen, hsub, List.getElem?_cons_succ, List.getElem?_drop,
        Nat.add_sub_cancel' (by omega), getElem?_firsts a (by omega), habove j (by omega) (by omega)]
  · have hleft : (firsts a' (n + 1))[i]? = none := by
      rw [List.getElem?_eq_none_iff, length_firsts]
      exact hi
    rw [hleft, eq_comm, List.getElem?_eq_none_iff]
    simp only [List.length_append, List.length_take, List.length_cons, List.length_drop, length_firsts]
    omega

end Firsts

/-! ### Loops over arrays -/

section Loops

variable {α : Type u}

/-- Copying the elements below `n`. -/
theorem foldl_copy (f init : ℕ → α) (n j : ℕ) :
  (List.range n).foldl (fun a i => Function.update a i (f i)) init j = if j < n then f j else init j
  := by
  induction n with
  | zero => exact (if_neg (Nat.not_lt_zero j)).symm
  | succ n ih =>
      rw [List.range_succ, List.foldl_append, List.foldl_cons, List.foldl_nil]
      rcases eq_or_ne j n with rfl | hne
      · rw [Function.update_self, if_pos (Nat.lt_succ_self j)]
      · rw [Function.update_of_ne hne, ih]
        congr 1
        rw [eq_iff_iff]
        omega

/-- Copying `n` elements from `b` on, each one place further. -/
theorem foldl_copy_succ (f init : ℕ → α) (b n j : ℕ) :
  (List.range' b n).foldl (fun a i => Function.update a (i + 1) (f i)) init j
    = if b < j ∧ j ≤ b + n then f (j - 1) else init j
  := by
  induction n with
  | zero =>
      rw [if_neg (by omega)]
      rfl
  | succ n ih =>
      rw [List.range'_1_concat, List.foldl_append, List.foldl_cons, List.foldl_nil]
      rcases eq_or_ne j (b + n + 1) with rfl | hne
      · rw [Function.update_self, if_pos (by omega), Nat.add_sub_cancel]
      · rw [Function.update_of_ne hne, ih]
        congr 1
        rw [eq_iff_iff]
        omega

/-- Moving `n` elements from `b` on one place further, the last one first. -/
theorem foldl_shift (a : ℕ → α) (b n j : ℕ) :
  (List.range' (b + 1) n).reverse.foldl (fun a i => Function.update a i (a (i - 1))) a j
    = if b < j ∧ j ≤ b + n then a (j - 1) else a j
  := by
  induction n generalizing a with
  | zero =>
      rw [if_neg (by omega)]
      rfl
  | succ n ih =>
      rw [List.range'_1_concat, List.reverse_append, List.reverse_singleton, List.singleton_append,
        List.foldl_cons, ih]
      rcases eq_or_ne j (b + 1 + n) with rfl | hne
      · rw [if_neg (by omega), if_pos (by omega), Function.update_self]
      · rw [Function.update_of_ne hne]
        by_cases hj : b < j ∧ j ≤ b + n
        · rw [if_pos hj, if_pos (by omega), Function.update_of_ne (by omega)]
        · rw [if_neg hj, if_neg (by omega)]

/-- A turn of the loop that moves the elements that are kept to the front of the array: `kept` is the array and
the number of those kept so far. -/
def compactStep (drop : α → Bool) (kept : (ℕ → α) × ℕ) (i : ℕ) : (ℕ → α) × ℕ :=
  if drop (kept.1 i) then kept
  else if i ≠ kept.2 then (Function.update kept.1 kept.2 (kept.1 i), kept.2 + 1)
  else (kept.1, kept.2 + 1)

/-- The loop filters the list. -/
theorem foldl_compact (drop : α → Bool) (a : ℕ → α) (n : ℕ) :
  let kept := (List.range n).foldl (compactStep drop) (a, 0)
  firsts kept.1 kept.2 = (firsts a n).filter (fun x => !drop x) ∧ kept.2 ≤ n ∧ ∀ i, n ≤ i → kept.1 i = a i
  := by
  induction n with
  | zero => exact ⟨rfl, Nat.le_refl 0, fun _ _ => rfl⟩
  | succ n ih =>
      obtain ⟨hfirsts, hle, hrest⟩ := ih
      rw [List.range_succ, List.foldl_append, List.foldl_cons, List.foldl_nil, firsts_succ,
        List.filter_append, ← hfirsts]
      rcases hkept : (List.range n).foldl (compactStep drop) (a, 0) with ⟨a', j⟩
      rw [hkept] at hle hrest
      dsimp only at hle hrest ⊢
      have hn : a' n = a n := hrest n (Nat.le_refl n)
      unfold compactStep
      simp only [hn]
      cases hdrop : drop (a n) with
      | true =>
          refine ⟨?_, Nat.le_succ_of_le hle, fun i hi => hrest i (Nat.le_of_succ_le hi)⟩
          simp [hdrop]
      | false =>
          rw [if_neg (by decide)]
          by_cases hj : n = j
          · subst hj
            rw [if_neg (by simp)]
            refine ⟨?_, Nat.le_refl _, fun i hi => hrest i (Nat.le_of_succ_le hi)⟩
            dsimp only
            rw [firsts_succ, hn]
            simp [hdrop]
          · rw [if_pos hj]
            refine ⟨?_, Nat.succ_le_succ hle, ?_⟩
            · dsimp only
              rw [firsts_succ, Function.update_self]
              have hsame : firsts (Function.update a' j (a n)) j = firsts a' j :=
                firsts_congr fun i hi => Function.update_of_ne (Nat.ne_of_lt hi) _ _
              rw [hsame]
              simp [hdrop]
            · intro i hi
              dsimp only
              rw [Function.update_of_ne (by omega)]
              exact hrest i (Nat.le_of_succ_le hi)

end Loops

/-! ### Binary search -/

/-- The result of a search: the place of what has been found, or the place where it belongs. -/
inductive Located where
  | found (i : ℕ)
  | absent (i : ℕ)
  deriving DecidableEq

section BinarySearch

variable {α : Type u} (cmp : α → α → Ordering) (key : ℕ → α) (x : α)

/-- Binary search for `x` among the keys from `first` to `last`. -/
def binarySearch (first last : ℤ) : Located :=
  if first ≤ last then
    let mid := (first + last) / 2
    match cmp (key mid.toNat) x with
    | .eq => .found mid.toNat
    | .lt => binarySearch (mid + 1) last
    | .gt => binarySearch first (mid - 1)
  else .absent first.toNat
termination_by (last + 1 - first).toNat

/-- The keys of an array of `n` elements are in strictly ascending order. -/
def StrictlySorted (n : ℕ) : Prop :=
  ∀ i j, i < j → j < n → cmp (key i) (key j) = .lt

/-- What a search among the first `n` keys is to result in. -/
def Located.Right (n : ℕ) : Located → Prop
  | .found i => i < n ∧ key i = x
  | .absent b => b ≤ n ∧ (∀ i, i < b → cmp (key i) x = .lt) ∧ ∀ i, b ≤ i → i < n → cmp x (key i) = .lt

variable {cmp key x} [Std.TransCmp cmp] [Std.LawfulEqCmp cmp] {n : ℕ}

theorem binarySearch_right (h : StrictlySorted cmp key n) {first last : ℤ} (hfirst : 0 ≤ first)
    (hlast : last < n) (hle : first ≤ last + 1) (hbelow : ∀ i : ℕ, (i : ℤ) < first → cmp (key i) x = .lt)
    (habove : ∀ i : ℕ, last < i → i < n → cmp x (key i) = .lt) :
  (binarySearch cmp key x first last).Right cmp key x n
  := by
  fun_induction binarySearch cmp key x first last with
  | case1 first last hrange mid heq =>
      refine ⟨by omega, Std.LawfulEqCmp.compare_eq_iff_eq.mp heq⟩
  | case2 first last hrange mid hlt ih =>
      apply ih (by omega) hlast (by omega) _ habove
      intro i hi
      rcases Nat.lt_or_ge i mid.toNat with hlow | hhigh
      · exact Std.TransCmp.lt_trans (h i mid.toNat hlow (by omega)) hlt
      · have hmid : i = mid.toNat := by omega
        rw [hmid]
        exact hlt
  | case3 first last hrange mid hgt ih =>
      apply ih hfirst (by omega) (by omega) hbelow
      intro i hi hn
      have hgt := Std.OrientedCmp.gt_iff_lt.mp hgt
      rcases Nat.lt_or_ge mid.toNat i with hhigh | hlow
      · exact Std.TransCmp.lt_trans hgt (h mid.toNat i hhigh hn)
      · have hmid : i = mid.toNat := by omega
        rw [hmid]
        exact hgt
  | case4 first last hrange =>
      refine ⟨by omega, fun i hi => hbelow i (by omega), fun i hi hn => habove i (by omega) hn⟩

/-- A search among all keys. -/
theorem binarySearch_all (h : StrictlySorted cmp key n) :
  (binarySearch cmp key x 0 ((n : ℤ) - 1)).Right cmp key x n
  := by
  apply binarySearch_right h (Int.le_refl 0) (by omega) (by omega)
  · intro i hi
    omega
  · intro i hi hn
    omega

end BinarySearch
