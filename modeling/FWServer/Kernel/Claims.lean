import Mathlib.Data.List.Nodup
import Mathlib.Data.Nat.Notation
import Mathlib.Logic.Function.Basic

/-!
# Exclusive claims

Numbered parties claim keys.  A party that holds a key drops it or gives it out, once and for all.  No two
parties hold the same key, and no key is given out twice.
-/

/-- The keys the parties hold and the keys that have been given out, newest first. -/
structure Claims (κ : Type*) where
  held : ℕ → Option κ
  given : List κ
  nodup : given.Nodup
  not_given : ∀ n x, held n = some x → x ∉ given
  injective : ∀ m n x, held m = some x → held n = some x → m = n

namespace Claims

variable {κ : Type*} {c : Claims κ} {n : ℕ} {x y : κ}

/-- No key is held or has been given out. -/
def empty : Claims κ where
  held _ := none
  given := []
  nodup := List.nodup_nil
  not_given _ _ := nofun
  injective _ _ _ := nofun

/-- A party holds the key, or it has been given out. -/
def Taken (c : Claims κ) (x : κ) : Prop :=
  x ∈ c.given ∨ ∃ n, c.held n = some x

/-- The party `n` claims a key that is not taken. -/
def claim (c : Claims κ) (n : ℕ) (x : κ) (h : ¬ c.Taken x) : Claims κ where
  held := Function.update c.held n (some x)
  given := c.given
  nodup := c.nodup
  not_given m y hy := by
    rcases eq_or_ne m n with rfl | hne
    · rw [Function.update_self] at hy
      obtain rfl := Option.some.inj hy
      exact fun hmem => h (.inl hmem)
    · rw [Function.update_of_ne hne] at hy
      exact c.not_given m y hy
  injective m m' y hm hm' := by
    have hother : ∀ k ≠ n, Function.update c.held n (some x) k = some y → y ≠ x := by
      intro k hne hy
      rw [Function.update_of_ne hne] at hy
      rintro rfl
      exact h (.inr ⟨k, hy⟩)
    rcases eq_or_ne m n with rfl | hne
    · rw [Function.update_self] at hm
      obtain rfl := Option.some.inj hm
      by_contra hne
      exact hother m' (Ne.symm hne) hm' rfl
    · rcases eq_or_ne m' n with rfl | hne'
      · rw [Function.update_self] at hm'
        obtain rfl := Option.some.inj hm'
        exact absurd rfl (hother m hne hm)
      · rw [Function.update_of_ne hne] at hm
        rw [Function.update_of_ne hne'] at hm'
        exact c.injective m m' y hm hm'

theorem held_of_drop {m : ℕ} (h : Function.update c.held n none m = some x) :
  m ≠ n ∧ c.held m = some x
  := by
  rcases eq_or_ne m n with rfl | hne
  · rw [Function.update_self] at h
    cases h
  · rw [Function.update_of_ne hne] at h
    exact ⟨hne, h⟩

/-- The party `n` drops the key it holds, if any. -/
def drop (c : Claims κ) (n : ℕ) : Claims κ where
  held := Function.update c.held n none
  given := c.given
  nodup := c.nodup
  not_given m y hy := c.not_given m y (held_of_drop hy).2
  injective m m' y hm hm' := c.injective m m' y (held_of_drop hm).2 (held_of_drop hm').2

/-- The party `n` gives out the key it holds. -/
def give (c : Claims κ) (n : ℕ) (x : κ) (h : c.held n = some x) : Claims κ where
  held := Function.update c.held n none
  given := x :: c.given
  nodup := c.nodup.cons (c.not_given n x h)
  not_given m y hy := by
    obtain ⟨hne, hy⟩ := held_of_drop hy
    rw [List.mem_cons]
    rintro (rfl | hmem)
    · exact hne (c.injective m n y hy h)
    · exact c.not_given m y hy hmem
  injective m m' y hm hm' := c.injective m m' y (held_of_drop hm).2 (held_of_drop hm').2

/-! ### What is taken -/

theorem taken_claim {h : ¬ c.Taken x} (hy : (c.claim n x h).Taken y) :
  y = x ∨ c.Taken y
  := by
  obtain hmem | ⟨m, hm⟩ := hy
  · exact .inr (.inl hmem)
  · change Function.update c.held n (some x) m = some y at hm
    rcases eq_or_ne m n with rfl | hne
    · rw [Function.update_self] at hm
      exact .inl (Option.some.inj hm).symm
    · rw [Function.update_of_ne hne] at hm
      exact .inr (.inr ⟨m, hm⟩)

theorem taken_drop (hy : (c.drop n).Taken y) :
  c.Taken y
  := by
  obtain hmem | ⟨m, hm⟩ := hy
  · exact .inl hmem
  · exact .inr ⟨m, (held_of_drop hm).2⟩

theorem taken_give {h : c.held n = some x} (hy : (c.give n x h).Taken y) :
  c.Taken y
  := by
  obtain hmem | ⟨m, hm⟩ := hy
  · rcases List.mem_cons.mp hmem with rfl | hmem
    · exact .inr ⟨n, h⟩
    · exact .inl hmem
  · exact .inr ⟨m, (held_of_drop hm).2⟩

end Claims
