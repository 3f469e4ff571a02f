import Mathlib.Data.List.Nodup

/-!
# Histories

A history lists what has happened, oldest first.  `History.Ordered follows` says that every event of
it may follow the events before it.
-/

namespace History

variable {E : Type*} {h before after : List E} {e e' : E}

/-- An event of an extended history is the last one, or one of the history. -/
theorem concat_cases (heq : h ++ [e] = before ++ e' :: after) :
  (h = before ∧ e = e' ∧ after = []) ∨ ∃ after', after = after' ++ [e] ∧ h = before ++ e' :: after'
  := by
  rcases List.eq_nil_or_concat' after with rfl | ⟨after', e'', rfl⟩
  · obtain ⟨rfl, he⟩ := List.append_inj' heq rfl
    cases he
    exact .inl ⟨rfl, rfl, rfl⟩
  · right
    have heq' : h ++ [e] = (before ++ e' :: after') ++ [e''] := by
      rw [heq, List.append_assoc, List.cons_append]
    obtain ⟨rfl, he⟩ := List.append_inj' heq' rfl
    cases he
    exact ⟨after', rfl, rfl⟩

/-- Every event follows those before it. -/
def Ordered (follows : List E → E → Prop) (h : List E) : Prop :=
  ∀ before e after, h = before ++ e :: after → follows before e

variable {follows : List E → E → Prop}

theorem ordered_nil :
  Ordered follows []
  := by
  intro before e after heq
  cases before <;> cases heq

theorem Ordered.concat (hh : Ordered follows h) (he : follows h e) :
  Ordered follows (h ++ [e])
  := by
  intro before e' after heq
  obtain ⟨rfl, rfl, -⟩ | ⟨after', -, heq'⟩ := concat_cases heq
  · exact he
  · exact hh before e' after' heq'

theorem Ordered.of_concat (hh : Ordered follows (h ++ [e])) :
  Ordered follows h
  := by
  intro before e' after heq
  apply hh before e' (after ++ [e])
  rw [heq, List.append_assoc, List.cons_append]

/-- What never follows an event does not stand after it. -/
theorem Ordered.not_mem (hh : Ordered follows (before ++ e :: after))
    (hnever : ∀ before', e ∈ before' → ¬ follows before' e') :
  e' ∉ after
  := by
  intro hmem
  obtain ⟨after₁, after₂, rfl⟩ := List.append_of_mem hmem
  apply hnever (before ++ e :: after₁) (List.mem_append_right _ List.mem_cons_self)
  apply hh _ _ after₂
  rw [List.append_assoc, List.cons_append]

end History
