import Mathlib.Data.List.Nodup
import Mathlib.Data.List.Perm.Subperm

/-!
# Precedence in a list

One element of a list precedes another when it stands before it.  In a list without duplicates, to which elements are
added at the end, this is a strict linear order that new elements come last in, and the elements that precede the one
at a place are those before the place.
-/

universe u

namespace List

variable {α : Type u} {l l₁ l₂ : List α} {a b x : α}

/-- `a` stands before `b`. -/
def Precedes (l : List α) (a b : α) : Prop :=
  [a, b].Sublist l

namespace Precedes

theorem mem_left (h : l.Precedes a b) :
  a ∈ l
  := h.subset mem_cons_self

theorem mem_right (h : l.Precedes a b) :
  b ∈ l
  := h.subset (mem_cons_of_mem a (mem_singleton_self b))

theorem ne (h : l.Precedes a b) (hl : l.Nodup) :
  a ≠ b
  := by
  have hpair := hl.sublist h
  rintro rfl
  exact (nodup_cons.mp hpair).1 (mem_singleton_self a)

/-- What precedes the element at a place stands before the place. -/
theorem mem_of_eq (h : l.Precedes a b) (hl : l.Nodup) (heq : l = l₁ ++ b :: l₂) :
  a ∈ l₁
  := by
  subst heq
  obtain ⟨k₁, k₂, hk, h₁, h₂⟩ := sublist_append_iff.mp h
  cases k₁ with
  | cons c k₁ =>
      obtain ⟨rfl, -⟩ := cons.inj hk
      exact h₁.subset mem_cons_self
  | nil =>
      obtain rfl : [a, b] = k₂ := hk
      have hnot := (nodup_cons.mp (nodup_append.mp hl).2.1).1
      cases h₂ with
      | cons _ h₂ => exact absurd (h₂.subset (mem_cons_of_mem a (mem_singleton_self b))) hnot
      | cons_cons _ h₂ => exact absurd (h₂.subset (mem_singleton_self _)) hnot

theorem of_eq (ha : a ∈ l₁) (heq : l = l₁ ++ b :: l₂) :
  l.Precedes a b
  := by
  subst heq
  exact (singleton_sublist.mpr ha).append (cons_sublist_cons.mpr (nil_sublist l₂))

theorem asymm (h : l.Precedes a b) (hl : l.Nodup) :
  ¬ l.Precedes b a
  := by
  intro h'
  obtain ⟨l₁, l₂, heq⟩ := append_of_mem h.mem_right
  have ha := h.mem_of_eq hl heq
  obtain ⟨k₁, k₂, rfl⟩ := append_of_mem ha
  have heq' : l = k₁ ++ a :: (k₂ ++ b :: l₂) := by rw [heq, append_assoc, cons_append]
  have hb := h'.mem_of_eq hl heq'
  rw [heq] at hl
  exact (nodup_append.mp hl).2.2 b (mem_append_left _ hb) b mem_cons_self rfl

theorem total (ha : a ∈ l) (hb : b ∈ l) (hne : a ≠ b) :
  l.Precedes a b ∨ l.Precedes b a
  := by
  obtain ⟨l₁, l₂, heq⟩ := append_of_mem hb
  rw [heq] at ha
  rcases mem_append.mp ha with ha | ha
  · exact .inl (of_eq ha heq)
  · have ha₂ := (mem_cons.mp ha).resolve_left hne
    refine .inr ?_
    rw [heq]
    exact (cons_sublist_cons.mpr (singleton_sublist.mpr ha₂)).trans (sublist_append_right l₁ _)

/-- A new element comes last. -/
theorem concat_iff :
  (l ++ [x]).Precedes a b ↔ l.Precedes a b ∨ a ∈ l ∧ b = x
  := by
  constructor
  · intro h
    obtain ⟨k₁, k₂, hk, h₁, h₂⟩ := sublist_append_iff.mp h
    rcases k₁ with _ | ⟨c, _ | ⟨d, k₁⟩⟩
    · obtain rfl : [a, b] = k₂ := hk
      exact absurd h₂.length_le (by simp)
    · obtain ⟨rfl, rfl⟩ : a = c ∧ [b] = k₂ := cons.inj hk
      exact .inr ⟨singleton_sublist.mp h₁, mem_singleton.mp (singleton_sublist.mp h₂)⟩
    · obtain ⟨rfl, hrest⟩ : a = c ∧ [b] = d :: (k₁ ++ k₂) := cons.inj hk
      obtain ⟨rfl, hnil⟩ : b = d ∧ [] = k₁ ++ k₂ := cons.inj hrest
      obtain ⟨rfl, -⟩ := append_eq_nil_iff.mp hnil.symm
      exact .inl h₁
  · rintro (h | ⟨ha, rfl⟩)
    · exact h.trans (sublist_append_left l [x])
    · exact (singleton_sublist.mpr ha).append (Sublist.refl [b])

end Precedes

end List
