import Mathlib.Data.List.Basic
import Mathlib.Logic.Function.Basic

/-!
# Shelves

Things are kept on shelves, each at its place, in the order in which they came: the shelf `k` of a list of
things consists of those whose place is `k`.  When the places change, it is enough to take the things off
the one shelf they change for and to put them where they belong, provided nothing stands there that would
not have to move as well.
-/

universe u v

/-- Everything in `things` is on the shelf of its place, in order. -/
def Shelved {α : Type u} {κ : Type v} [DecidableEq κ] (place : α → κ) (things : List α)
    (shelf : κ → List α) : Prop :=
  ∀ k, shelf k = things.filter fun a => place a = k

namespace Shelved

variable {α : Type u} {κ : Type v} [DecidableEq κ] {place place' : α → κ} {things : List α}
  {shelf : κ → List α}

/-- Puts a thing at the end of a shelf. -/
def put (shelf : κ → List α) (k : κ) (a : α) : κ → List α :=
  Function.update shelf k (shelf k ++ [a])

/-- Puts things one after the other at their places. -/
def putAll (place : α → κ) (shelf : κ → List α) (things : List α) : κ → List α :=
  things.foldl (fun shelf a => put shelf (place a) a) shelf

theorem put_apply (shelf : κ → List α) (k k' : κ) (a : α) :
  put shelf k a k' = shelf k' ++ if k = k' then [a] else []
  := by
  unfold put
  split
  · next h =>
      subst h
      exact Function.update_self _ _ _
  · next h =>
      rw [Function.update_of_ne (Ne.symm h), List.append_nil]

theorem putAll_apply (place : α → κ) (shelf : κ → List α) (things : List α) (k : κ) :
  putAll place shelf things k = shelf k ++ things.filter fun a => place a = k
  := by
  unfold putAll
  induction things generalizing shelf with
  | nil => exact (List.append_nil _).symm
  | cons a things ih =>
      rw [List.foldl_cons, ih, put_apply, List.append_assoc, List.filter_cons]
      congr 1
      by_cases h : place a = k <;> simp [h]

theorem put_place (h : Shelved place things shelf) (a : α) :
  Shelved place (things ++ [a]) (put shelf (place a) a)
  := by
  intro k
  rw [put_apply, h k, List.filter_append]
  congr 1
  by_cases hk : place a = k <;> simp [hk]

/-- Clearing a shelf takes away the things that are on it. -/
theorem clear (h : Shelved place things shelf) (k : κ) :
  Shelved place (things.filter fun a => place a ≠ k) (Function.update shelf k [])
  := by
  intro k'
  rw [List.filter_filter]
  rcases eq_or_ne k' k with rfl | hk
  · rw [Function.update_self]
    symm
    simp
  · rw [Function.update_of_ne hk, h k']
    apply List.filter_congr
    intro a _
    by_cases ha : place a = k'
    · simp [ha, hk]
    · simp [ha]

/-- Where nothing changes its place, nothing has to be moved. -/
theorem congr (h : Shelved place things shelf) (hplace : ∀ a ∈ things, place' a = place a) :
  Shelved place' things shelf
  := by
  intro k
  rw [h k]
  apply List.filter_congr
  intro a ha
  rw [hplace a ha]

/-- If only things on the shelf `c` change their places, and where they go there is nothing that stays, they
are taken off that shelf and put where they belong. -/
theorem reshelve (h : Shelved place things shelf) (c : κ)
    (hstay : ∀ a ∈ things, place a ≠ c → place' a = place a)
    (hfree : ∀ a ∈ things, ∀ b ∈ things, place a = c → place b ≠ c → place b ≠ place' a) :
  Shelved place' things (putAll place' (Function.update shelf c []) (shelf c))
  := by
  intro k
  rw [putAll_apply, h c, List.filter_filter]
  by_cases hmoved : ∃ a ∈ things, place a = c ∧ place' a = k
  · obtain ⟨a, ha, hac, rfl⟩ := hmoved
    -- nothing has stood where the thing goes
    have hnone : Function.update shelf c [] (place' a) = [] := by
      rcases eq_or_ne (place' a) c with hc | hc
      · rw [hc, Function.update_self]
      · rw [Function.update_of_ne hc, h, List.filter_eq_nil_iff]
        intro b hb hplace
        rw [decide_eq_true_eq] at hplace
        exact hfree a ha b hb hac (hplace ▸ hc) hplace
    rw [hnone, List.nil_append]
    apply List.filter_congr
    intro b hb
    by_cases hbc : place b = c
    · simp [hbc]
    · have hne : place' b ≠ place' a := by
        rw [hstay b hb hbc]
        exact hfree a ha b hb hac hbc
      simp [hbc, hne]
  · have hnone : (things.filter fun a => decide (place' a = k) && decide (place a = c)) = [] := by
      rw [List.filter_eq_nil_iff]
      intro a ha hmove
      rw [Bool.and_eq_true, decide_eq_true_eq, decide_eq_true_eq] at hmove
      exact hmoved ⟨a, ha, hmove.2, hmove.1⟩
    rw [hnone, List.append_nil]
    have hsame : ∀ a ∈ things, place' a = k ↔ place a ≠ c ∧ place a = k := by
      intro a ha
      by_cases hac : place a = c
      · exact iff_of_false (fun hk => hmoved ⟨a, ha, hac, hk⟩) fun hk => hk.1 hac
      · rw [hstay a ha hac]
        exact (and_iff_right hac).symm
    rcases eq_or_ne k c with rfl | hk
    · rw [Function.update_self]
      symm
      rw [List.filter_eq_nil_iff]
      intro a ha hplace
      rw [decide_eq_true_eq, hsame a ha] at hplace
      exact hplace.1 hplace.2
    · rw [Function.update_of_ne hk, h k]
      apply List.filter_congr
      intro a ha
      rw [decide_eq_decide, hsame a ha]
      constructor
      · intro hplace
        exact ⟨hplace ▸ hk, hplace⟩
      · exact And.right

end Shelved
