import Mathlib.Data.List.Basic
import Mathlib.Data.Nat.Notation
import Mathlib.Logic.Function.Basic

/-!
# Linked lists

Nodes are linked by a partial function `next`.  `Linked next p l` says that following it from `p` visits the nodes `l`
and then ends; there is one such list at most, and it repeats no node.  `LinkedLists next root lists` is a family of
linked lists that share no node: what one of them gains or loses leaves the others alone.
-/

universe u v

/-- Following `next` from `p` visits the nodes of a list, and ends. -/
def Linked {α : Type u} (next : α → Option α) : Option α → List α → Prop
  | p, [] => p = none
  | p, a :: l => p = some a ∧ Linked next (next a) l

namespace Linked

variable {α : Type u} {next next' : α → Option α} {p q : Option α} {a b : α} {l l' l₁ l₂ : List α}

@[simp]
theorem nil_iff :
  Linked next p [] ↔ p = none
  := Iff.rfl

theorem eq_nil_iff (h : Linked next p l) :
  l = [] ↔ p = none
  := by
  cases l with
  | nil => exact iff_of_true rfl h
  | cons a l =>
      rw [h.1]
      apply iff_of_false <;> rintro ⟨⟩

theorem unique (h : Linked next p l) (h' : Linked next p l') :
  l = l'
  := by
  induction l generalizing p l' with
  | nil =>
      symm
      apply h'.eq_nil_iff.mpr h
  | cons a l ih =>
      obtain ⟨rfl, hl⟩ := h
      cases l' with
      | nil => cases h'
      | cons b l' =>
          obtain ⟨hab, hl'⟩ := h'
          obtain rfl := Option.some.inj hab
          rw [ih hl hl']

/-- What is linked from a node in the middle. -/
theorem suffix (h : Linked next p (l₁ ++ a :: l₂)) :
  Linked next (some a) (a :: l₂)
  := by
  induction l₁ generalizing p with
  | nil =>
      use rfl
      apply h.2
  | cons b l₁ ih => apply ih h.2

theorem nodup (h : Linked next p l) :
  l.Nodup
  := by
  induction l generalizing p with
  | nil => apply List.nodup_nil
  | cons a l ih =>
      rw [List.nodup_cons]
      use fun ha => ?_, ih h.2
      obtain ⟨l₁, l₂, hl⟩ := List.append_of_mem ha
      -- what is linked from `a` would be a part of itself
      have htail : Linked next (some a) (a :: l₂) := by
        have hrest := h.2
        rw [hl] at hrest
        apply hrest.suffix
      have hself : Linked next (some a) (a :: l) := ⟨rfl, h.2⟩
      have hlength := congrArg List.length (htail.unique hself)
      rw [hl, List.length_cons, List.length_cons, List.length_append, List.length_cons] at hlength
      omega

/-- The links of the nodes in the list are all that matters. -/
theorem congr (hnext : ∀ a ∈ l, next' a = next a) (h : Linked next p l) :
  Linked next' p l
  := by
  induction l generalizing p with
  | nil => apply h
  | cons a l ih =>
      use h.1
      rw [hnext a List.mem_cons_self]
      apply ih (fun b hb => hnext b (List.mem_cons_of_mem a hb)) h.2

/-- A list that is changed after one of its nodes. -/
theorem splice (hnext : ∀ b ∈ l₁, next' b = next b) (h : Linked next p (l₁ ++ a :: l))
    (htail : Linked next' (next' a) l₂) :
  Linked next' p (l₁ ++ a :: l₂)
  := by
  induction l₁ generalizing p with
  | nil => exact ⟨h.1, htail⟩
  | cons b l₁ ih =>
      use h.1
      rw [hnext b List.mem_cons_self]
      apply ih (fun c hc => hnext c (List.mem_cons_of_mem b hc)) h.2

/-- Numbers that are each linked to the next one. -/
theorem range' {next : ℕ → Option ℕ} {s n : ℕ} (hnext : ∀ i, i < n → next (s + i) = some (s + i + 1))
    (hlast : next (s + n) = none) :
  Linked next (some s) (List.range' s (n + 1))
  := by
  induction n generalizing s with
  | zero => exact ⟨rfl, hlast⟩
  | succ n ih =>
      rw [List.range'_succ]
      use rfl
      rw [← Nat.add_zero s, hnext 0 (Nat.zero_lt_succ n)]
      apply ih
      · intro i hi
        have hi' := hnext (i + 1) (Nat.succ_lt_succ hi)
        rwa [← Nat.add_assoc, Nat.add_right_comm s i 1] at hi'
      · rwa [Nat.add_zero, Nat.add_right_comm]

variable [DecidableEq α]

/-- A node that is not in the list may be linked to anything. -/
theorem update (ha : a ∉ l) (x : Option α) (h : Linked next p l) :
  Linked (Function.update next a x) p l
  := by
  apply h.congr
  intro b hb
  apply Function.update_of_ne
  rintro rfl
  apply ha hb

/-- A node is put in front. -/
theorem push (ha : a ∉ l) (h : Linked next p l) :
  Linked (Function.update next a p) (some a) (a :: l)
  := by
  use rfl
  rw [Function.update_self]
  apply h.update ha

/-- A node is put at the end. -/
theorem append (ha : a ∉ l₁ ++ [b]) (h : Linked next p (l₁ ++ [b])) :
  Linked (Function.update (Function.update next a none) b (some a)) p (l₁ ++ [b, a])
  := by
  have hnodup := h.nodup
  rw [List.nodup_append] at hnodup
  rw [List.mem_append, List.mem_singleton, not_or] at ha
  apply h.splice
  · intro c hc
    rw [Function.update_of_ne, Function.update_of_ne]
    · rintro rfl
      apply ha.1 hc
    · apply hnodup.2.2 c hc b (List.mem_singleton_self b)
  · rw [Function.update_self]
    use rfl
    rw [Function.update_of_ne ha.2, Function.update_self]
    rfl

/-- The node after another is taken out. -/
theorem unlink (h : Linked next p (l₁ ++ b :: a :: l₂)) :
  Linked (Function.update next b (next a)) p (l₁ ++ b :: l₂)
  := by
  have hnodup := h.nodup
  have hb : b ∉ l₁ ∧ b ∉ l₂ := by
    rw [List.nodup_append, List.nodup_cons, List.mem_cons] at hnodup
    constructor
    · intro hb
      apply hnodup.2.2 b hb b List.mem_cons_self rfl
    · intro hb
      apply hnodup.2.1.1 (.inr hb)
  have htail := h.suffix.2.2
  apply h.splice
  · intro c hc
    apply Function.update_of_ne
    rintro rfl
    apply hb.1 hc
  · rw [Function.update_self]
    apply htail.update hb.2

end Linked

/-- From the root of each list its nodes are linked, and no node is in two lists. -/
structure LinkedLists {α : Type u} {κ : Type v} (next : α → Option α) (root : κ → Option α)
    (lists : κ → List α) : Prop where
  linked : ∀ k, Linked next (root k) (lists k)
  disjoint : ∀ {k k' a}, a ∈ lists k → a ∈ lists k' → k = k'

namespace LinkedLists

variable {α : Type u} {κ : Type v} {next : α → Option α} {root : κ → Option α} {lists : κ → List α} {k : κ} {a b : α}
  {l l₁ l₂ : List α}

/-- A node that is in no list may be linked to anything. -/
theorem update [DecidableEq α] (h : LinkedLists next root lists) (ha : ∀ k, a ∉ lists k) (x : Option α) :
  LinkedLists (Function.update next a x) root lists
  where
  linked k := (h.linked k).update (ha k) x
  disjoint := h.disjoint

variable [DecidableEq κ]

/-- One list and its links are replaced. -/
theorem replace (h : LinkedLists next root lists) {next' : α → Option α} {p : Option α}
    (hl : Linked next' p l) (hnext : ∀ k' ≠ k, ∀ a ∈ lists k', next' a = next a)
    (hdisjoint : ∀ k' ≠ k, ∀ a ∈ l, a ∉ lists k') :
  LinkedLists next' (Function.update root k p) (Function.update lists k l)
  where
  linked k' := by
    rcases eq_or_ne k' k with rfl | hk
    · rw [Function.update_self, Function.update_self]
      apply hl
    · rw [Function.update_of_ne hk, Function.update_of_ne hk]
      apply (h.linked k').congr (hnext k' hk)
  disjoint {k₁ k₂ a} h₁ h₂ := by
    rcases eq_or_ne k₁ k with rfl | hk₁ <;> rcases eq_or_ne k₂ k₁ with rfl | hk
    · rfl
    · rw [Function.update_self] at h₁
      rw [Function.update_of_ne hk] at h₂
      exact absurd h₂ (hdisjoint k₂ hk a h₁)
    · rfl
    · rw [Function.update_of_ne hk₁] at h₁
      rcases eq_or_ne k₂ k with rfl | hk₂
      · rw [Function.update_self] at h₂
        exact absurd h₁ (hdisjoint k₁ hk₁ a h₂)
      · rw [Function.update_of_ne hk₂] at h₂
        apply h.disjoint h₁ h₂

/-- What the lists hold when one of them gains nodes. -/
theorem exists_mem_update {P : α → Prop} (hl : ∀ c, c ∈ l ↔ P c ∨ c ∈ lists k) (c : α) :
  (∃ k', c ∈ Function.update lists k l k') ↔ P c ∨ ∃ k', c ∈ lists k'
  := by
  constructor
  · rintro ⟨k', hc⟩
    rcases eq_or_ne k' k with rfl | hk
    · rw [Function.update_self] at hc
      exact ((hl c).mp hc).imp_right fun hc => ⟨k', hc⟩
    · rw [Function.update_of_ne hk] at hc
      right
      use k'
  · rintro (hc | ⟨k', hc⟩)
    · use k
      rw [Function.update_self]
      apply (hl c).mpr (.inl hc)
    · use k'
      rcases eq_or_ne k' k with rfl | hk
      · rw [Function.update_self]
        apply (hl c).mpr (.inr hc)
      · rwa [Function.update_of_ne hk]

/-- A list loses its first node. -/
theorem tail (h : LinkedLists next root lists) (hk : lists k = a :: l) :
  LinkedLists next (Function.update root k (next a)) (Function.update lists k l)
  := by
  have hl := h.linked k
  rw [hk] at hl
  apply h.replace hl.2 fun _ _ _ _ => rfl
  intro k' hne b hb hb'
  have hbk : b ∈ lists k := by
    rw [hk]
    apply List.mem_cons_of_mem a hb
  apply hne (h.disjoint hb' hbk)

theorem exists_mem_tail {c : α} (hk : lists k = a :: l) :
  (∃ k', c ∈ lists k') ↔ c = a ∨ ∃ k', c ∈ Function.update lists k l k'
  := by
  have hlists : Function.update (Function.update lists k l) k (a :: l) = lists := by
    rw [Function.update_idem, ← hk, Function.update_eq_self]
  rw [← exists_mem_update (k := k) (l := a :: l) (P := fun c => c = a), hlists]
  intro c
  rw [Function.update_self, List.mem_cons]

/-- Then this node is in no list. -/
theorem notMem_tail (h : LinkedLists next root lists) (hk : lists k = a :: l) (k' : κ) :
  a ∉ Function.update lists k l k'
  := by
  have ha : a ∈ lists k := by
    rw [hk]
    apply List.mem_cons_self
  rcases eq_or_ne k' k with rfl | hne
  · have hnodup := (h.linked k').nodup
    rw [hk, List.nodup_cons] at hnodup
    rw [Function.update_self]
    apply hnodup.1
  · rw [Function.update_of_ne hne]
    intro ha'
    apply hne (h.disjoint ha' ha)

variable [DecidableEq α]

/-- A node that is in no list is put in front of one. -/
theorem push (h : LinkedLists next root lists) (ha : ∀ k, a ∉ lists k) (k : κ) :
  LinkedLists (Function.update next a (root k)) (Function.update root k (some a))
    (Function.update lists k (a :: lists k))
  := by
  apply h.replace ((h.linked k).push (ha k))
  · intro k' _ b hb
    apply Function.update_of_ne
    rintro rfl
    apply ha k' hb
  · intro k' hk b hb
    rcases List.mem_cons.mp hb with rfl | hb
    · apply ha k'
    · intro hb'
      apply hk (h.disjoint hb' hb)

/-- A node that is in no list is put at the end of one. -/
theorem append (h : LinkedLists next root lists) (ha : ∀ k, a ∉ lists k) (hk : lists k = l ++ [b]) :
  LinkedLists (Function.update (Function.update next a none) b (some a)) root
    (Function.update lists k (l ++ [b, a]))
  := by
  have hb : b ∈ lists k := by
    rw [hk]
    apply List.mem_append_right l (List.mem_singleton_self b)
  have hl := h.linked k
  have hak := ha k
  rw [hk] at hl hak
  rw [← Function.update_eq_self k root]
  apply h.replace (hl.append hak)
  · intro k' hne c hc
    rw [Function.update_of_ne, Function.update_of_ne]
    · rintro rfl
      apply ha k' hc
    · rintro rfl
      apply hne (h.disjoint hc hb)
  · intro k' hne c hc hc'
    rw [List.append_cons, List.mem_append, List.mem_singleton, ← hk] at hc
    rcases hc with hc | rfl
    · apply hne (h.disjoint hc' hc)
    · apply ha k' hc'

/-- The node after another is taken out. -/
theorem unlink (h : LinkedLists next root lists) (hk : lists k = l₁ ++ b :: a :: l₂) :
  LinkedLists (Function.update next b (next a)) root (Function.update lists k (l₁ ++ b :: l₂))
  := by
  have hl := h.linked k
  rw [hk] at hl
  rw [← Function.update_eq_self k root]
  have hmem : ∀ c ∈ l₁ ++ b :: l₂, c ∈ lists k := by
    intro c hc
    rw [hk]
    rw [List.mem_append, List.mem_cons] at hc
    rw [List.mem_append, List.mem_cons, List.mem_cons]
    exact hc.imp_right (Or.imp_right .inr)
  apply h.replace hl.unlink
  · intro k' hne c hc
    apply Function.update_of_ne
    rintro rfl
    apply hne (h.disjoint hc (hmem c (List.mem_append_right l₁ List.mem_cons_self)))
  · intro k' hne c hc hc'
    apply hne (h.disjoint hc' (hmem c hc))

end LinkedLists
