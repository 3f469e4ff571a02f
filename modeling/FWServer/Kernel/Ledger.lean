import Mathlib.Data.List.Nodup
import Mathlib.Data.List.Count
import Mathlib.Logic.Function.Basic

/-!
# Ledgers

Things are handed over one by one, kept in queues, moved from queue to queue and freed in the end.  A `Ledger` says
that this goes right: nothing is in two places, and nothing is freed twice or while it is in a queue.  What leaves
the queues otherwise is no longer of interest.
-/

universe u v

/-- Of the things that have been handed over some have been freed, each once, and some are in the queues. -/
structure Ledger {α : Type u} {κ : Type v} (taken freed : List α) (held : κ → List α) : Prop where
  taken_of_held : ∀ {k a}, a ∈ held k → a ∈ taken
  taken_of_freed : ∀ {a}, a ∈ freed → a ∈ taken
  nodup_freed : freed.Nodup
  nodup : ∀ k, (held k).Nodup
  apart : ∀ {k k' a}, a ∈ held k → a ∈ held k' → k = k'
  kept : ∀ {k a}, a ∈ held k → a ∉ freed

namespace Ledger

variable {α : Type u} {κ : Type v} {taken freed rest done l : List α} {held held' : κ → List α} {k k' : κ} {a : α}

theorem empty {α : Type u} {κ : Type v} {held : κ → List α} (h : ∀ k, held k = []) :
  Ledger [] [] held
  where
  taken_of_held {k a} ha := by rwa [h k] at ha
  taken_of_freed ha := ha
  nodup_freed := List.nodup_nil
  nodup k := by
    rw [h k]
    apply List.nodup_nil
  apart {k k' a} ha := by
    rw [h k] at ha
    cases ha
  kept {k a} ha := by
    rw [h k] at ha
    cases ha

theorem count_eq_one [DecidableEq α] (h : Ledger taken freed held) (ha : a ∈ freed) :
  freed.count a = 1
  := List.count_eq_one_of_mem h.nodup_freed ha

/-- A thing is handed over and handed on. -/
theorem pass (h : Ledger taken freed held) (a : α) :
  Ledger (taken ++ [a]) freed held
  where
  taken_of_held ha := List.mem_append_left [a] (h.taken_of_held ha)
  taken_of_freed ha := List.mem_append_left [a] (h.taken_of_freed ha)
  nodup_freed := h.nodup_freed
  nodup := h.nodup
  apart := h.apart
  kept := h.kept

/-- A thing is handed over and freed. -/
theorem free_new (h : Ledger taken freed held) (ha : a ∉ taken) :
  Ledger (taken ++ [a]) (freed ++ [a]) held
  where
  taken_of_held hb := List.mem_append_left [a] (h.taken_of_held hb)
  taken_of_freed {b} hb := by
    rw [List.mem_append] at hb ⊢
    exact hb.imp_left h.taken_of_freed
  nodup_freed := by
    rw [List.nodup_append]
    use h.nodup_freed, List.nodup_singleton a
    rintro b hb c hc rfl
    rw [List.mem_singleton] at hc
    subst hc
    apply ha (h.taken_of_freed hb)
  nodup := h.nodup
  apart := h.apart
  kept {k b} hb hfreed := by
    rw [List.mem_append, List.mem_singleton] at hfreed
    rcases hfreed with hfreed | rfl
    · apply h.kept hb hfreed
    · apply ha (h.taken_of_held hb)

variable [DecidableEq κ]

/-- The front of a queue is freed. -/
theorem free (h : Ledger taken freed held) (hk : held k = done ++ rest) :
  Ledger taken (freed ++ done) (Function.update held k rest)
  := by
  have hnodup := h.nodup k
  have hdone : ∀ {a}, a ∈ done → a ∈ held k := by
    intro a ha
    rw [hk]
    apply List.mem_append_left rest ha
  have hheld : ∀ {k' a}, a ∈ Function.update held k rest k' → a ∈ held k' ∧ a ∉ done := by
    intro k' a ha
    rcases eq_or_ne k' k with rfl | hne
    · rw [Function.update_self] at ha
      rw [hk, List.nodup_append] at hnodup
      rw [hk]
      use List.mem_append_right done ha
      intro ha'
      apply hnodup.2.2 a ha' a ha rfl
    · rw [Function.update_of_ne hne] at ha
      use ha
      intro ha'
      apply hne (h.apart ha (hdone ha'))
  constructor
  · exact fun ha => h.taken_of_held (hheld ha).1
  · intro a ha
    rcases List.mem_append.mp ha with ha | ha
    · apply h.taken_of_freed ha
    · apply h.taken_of_held (hdone ha)
  · rw [hk, List.nodup_append] at hnodup
    rw [List.nodup_append]
    use h.nodup_freed, hnodup.1
    rintro a ha b hb rfl
    apply h.kept (hdone hb) ha
  · intro k'
    rcases eq_or_ne k' k with rfl | hne
    · rw [Function.update_self]
      rw [hk, List.nodup_append] at hnodup
      apply hnodup.2.1
    · rw [Function.update_of_ne hne]
      apply h.nodup
  · exact fun ha ha' => h.apart (hheld ha).1 (hheld ha').1
  · intro k' a ha hfreed
    rcases List.mem_append.mp hfreed with hfreed | hfreed
    · apply h.kept (hheld ha).1 hfreed
    · apply (hheld ha).2 hfreed

/-- A queue is emptied without freeing anything. -/
theorem drop (h : Ledger taken freed held) (k : κ) :
  Ledger taken freed (Function.update held k [])
  := by
  have hheld : ∀ {k' a}, a ∈ Function.update held k [] k' → a ∈ held k' := by
    intro k' a ha
    rcases eq_or_ne k' k with rfl | hne
    · rw [Function.update_self] at ha
      cases ha
    · rwa [Function.update_of_ne hne] at ha
  constructor
  · exact fun ha => h.taken_of_held (hheld ha)
  · exact h.taken_of_freed
  · apply h.nodup_freed
  · intro k'
    rcases eq_or_ne k' k with rfl | hne
    · rw [Function.update_self]
      apply List.nodup_nil
    · rw [Function.update_of_ne hne]
      apply h.nodup
  · exact fun ha ha' => h.apart (hheld ha) (hheld ha')
  · exact fun ha => h.kept (hheld ha)

/-- A thing is handed over and put at the end of a queue. -/
theorem receive (h : Ledger taken freed held) (ha : a ∉ taken) (k : κ) :
  Ledger (taken ++ [a]) freed (Function.update held k (held k ++ [a]))
  := by
  have hheld : ∀ {k' b}, b ∈ Function.update held k (held k ++ [a]) k' → b ∈ held k' ∨ b = a ∧ k' = k := by
    intro k' b hb
    rcases eq_or_ne k' k with rfl | hne
    · rw [Function.update_self, List.mem_append, List.mem_singleton] at hb
      exact hb.imp_right fun hb => ⟨hb, rfl⟩
    · rw [Function.update_of_ne hne] at hb
      exact .inl hb
  constructor
  · intro k' b hb
    rw [List.mem_append, List.mem_singleton]
    exact (hheld hb).imp h.taken_of_held And.left
  · exact fun hb => List.mem_append_left [a] (h.taken_of_freed hb)
  · apply h.nodup_freed
  · intro k'
    rcases eq_or_ne k' k with rfl | hne
    · rw [Function.update_self, List.nodup_append]
      use h.nodup k', List.nodup_singleton a
      rintro b hb c hc rfl
      rw [List.mem_singleton] at hc
      subst hc
      apply ha (h.taken_of_held hb)
    · rw [Function.update_of_ne hne]
      apply h.nodup
  · intro k₁ k₂ b h₁ h₂
    rcases hheld h₁ with hb | ⟨rfl, rfl⟩ <;> rcases hheld h₂ with hb' | ⟨hba, hk⟩
    · apply h.apart hb hb'
    · subst hba
      exact absurd (h.taken_of_held hb) ha
    · exact absurd (h.taken_of_held hb') ha
    · exact hk.symm
  · intro k' b hb hfreed
    rcases hheld hb with hb | ⟨rfl, -⟩
    · apply h.kept hb hfreed
    · apply ha (h.taken_of_freed hfreed)

/-- What is in one queue is moved to the end of another. -/
theorem move (h : Ledger taken freed held) (hne : k ≠ k') :
  Ledger taken freed (Function.update (Function.update held k' (held k' ++ held k)) k [])
  := by
  have hheld : ∀ {j a}, a ∈ Function.update (Function.update held k' (held k' ++ held k)) k [] j →
      j ≠ k ∧ (a ∈ held j ∨ a ∈ held k ∧ j = k') := by
    intro j a ha
    rcases eq_or_ne j k with rfl | hjk
    · rw [Function.update_self] at ha
      cases ha
    · use hjk
      rw [Function.update_of_ne hjk] at ha
      rcases eq_or_ne j k' with rfl | hjk'
      · rw [Function.update_self, List.mem_append] at ha
        exact ha.imp_right fun ha => ⟨ha, rfl⟩
      · rw [Function.update_of_ne hjk'] at ha
        exact .inl ha
  constructor
  · intro j a ha
    rcases (hheld ha).2 with ha | ⟨ha, -⟩ <;> apply h.taken_of_held ha
  · exact h.taken_of_freed
  · apply h.nodup_freed
  · intro j
    rcases eq_or_ne j k with rfl | hjk
    · rw [Function.update_self]
      apply List.nodup_nil
    · rw [Function.update_of_ne hjk]
      rcases eq_or_ne j k' with rfl | hjk'
      · rw [Function.update_self, List.nodup_append]
        use h.nodup j, h.nodup k
        rintro a ha b hb rfl
        apply hne (h.apart hb ha)
      · rw [Function.update_of_ne hjk']
        apply h.nodup
  · intro j₁ j₂ a h₁ h₂
    obtain ⟨hj₁, ha | ⟨ha, rfl⟩⟩ := hheld h₁ <;> obtain ⟨hj₂, ha' | ⟨ha', heq⟩⟩ := hheld h₂
    · apply h.apart ha ha'
    · exact absurd (h.apart ha ha') hj₁
    · exact absurd (h.apart ha' ha) hj₂
    · exact heq.symm
  · intro j a ha
    rcases (hheld ha).2 with ha | ⟨ha, -⟩ <;> apply h.kept ha

end Ledger
