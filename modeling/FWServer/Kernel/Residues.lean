import Mathlib.Data.Nat.Notation
import Mathlib.Logic.Function.Basic

/-!
# Tables by remainder

Members with keys are kept in a table of `size` slots, each in the slot that is the remainder of its key.
`Residues key member size slot` says that the table consists of the members; then no two of them have the
same remainder.
-/

universe u

/-- The slots hold the members, each in the slot of the remainder of its key. -/
def Residues {α : Type u} (key : α → ℕ) (member : α → Prop) (size : ℕ) (slot : ℕ → Option α) : Prop :=
  ∀ i a, slot i = some a ↔ member a ∧ key a % size = i

namespace Residues

variable {α : Type u} {key key' : α → ℕ} {member member' : α → Prop} {size : ℕ} {slot : ℕ → Option α}
  {a b : α} {i : ℕ}

theorem empty (key : α → ℕ) (size : ℕ) :
  Residues key (fun _ => False) size fun _ => none
  := fun _ _ => iff_of_false nofun And.left

theorem slot_eq (h : Residues key member size slot) (ha : member a) :
  slot (key a % size) = some a
  := (h _ a).mpr ⟨ha, rfl⟩

/-- Members are told apart by the remainders of their keys. -/
theorem eq_of_mod_eq (h : Residues key member size slot) (ha : member a) (hb : member b)
    (hmod : key a % size = key b % size) :
  a = b
  := by
  have hslot := h.slot_eq ha
  rw [hmod, h.slot_eq hb] at hslot
  exact (Option.some.inj hslot).symm

theorem congr (h : Residues key member size slot) (hmember : ∀ a, member' a ↔ member a)
    (hkey : ∀ a, member a → key' a = key a) :
  Residues key' member' size slot
  := by
  intro i a
  rw [h i a, hmember a]
  exact and_congr_right fun ha => by rw [hkey a ha]

/-- A member may be put in a free slot. -/
theorem insert (h : Residues key member size slot) (hfree : slot (key a % size) = none) :
  Residues key (fun b => b = a ∨ member b) size (Function.update slot (key a % size) (some a))
  := by
  intro i b
  rcases eq_or_ne i (key a % size) with rfl | hi
  · rw [Function.update_self, Option.some.injEq]
    constructor
    · rintro rfl
      exact ⟨.inl rfl, rfl⟩
    · rintro ⟨rfl | hb, hmod⟩
      · rfl
      · have hslot := h.slot_eq hb
        rw [hmod, hfree] at hslot
        cases hslot
  · rw [Function.update_of_ne hi, h i b]
    constructor
    · rintro ⟨hb, hmod⟩
      exact ⟨.inr hb, hmod⟩
    · rintro ⟨rfl | hb, hmod⟩
      · exact absurd hmod.symm hi
      · exact ⟨hb, hmod⟩

/-- A member may be taken out. -/
theorem erase (h : Residues key member size slot) (ha : member a) :
  Residues key (fun b => member b ∧ b ≠ a) size (Function.update slot (key a % size) none)
  := by
  intro i b
  rcases eq_or_ne i (key a % size) with rfl | hi
  · rw [Function.update_self]
    refine iff_of_false nofun ?_
    rintro ⟨⟨hb, hne⟩, hmod⟩
    exact hne (h.eq_of_mod_eq hb ha hmod)
  · rw [Function.update_of_ne hi, h i b]
    constructor
    · rintro ⟨hb, hmod⟩
      refine ⟨⟨hb, ?_⟩, hmod⟩
      rintro rfl
      exact hi hmod.symm
    · rintro ⟨⟨hb, -⟩, hmod⟩
      exact ⟨hb, hmod⟩

/-! ### Doubling a table -/

/-- When the members of the slots below `n` have been put in a table of twice the size, there is room for the
one of the slot `n`. -/
theorem double_free (h : Residues key member size slot) {new : ℕ → Option α} {n : ℕ}
    (hnew : Residues key (fun b => member b ∧ key b % size < n) (size * 2) new) (ha : slot n = some a) :
  new (key a % (size * 2)) = none
  := by
  obtain ⟨ha, hn⟩ := (h n a).mp ha
  rw [Option.eq_none_iff_forall_ne_some]
  intro b hb
  obtain ⟨⟨hb, hlt⟩, hmod⟩ := (hnew _ b).mp hb
  have hsame : key b % size = key a % size := by
    rw [← Nat.mod_mul_right_mod (key b) size 2, hmod, Nat.mod_mul_right_mod]
  omega

/-- It is put there. -/
theorem double_put (h : Residues key member size slot) {new : ℕ → Option α} {n : ℕ}
    (hnew : Residues key (fun b => member b ∧ key b % size < n) (size * 2) new) (ha : slot n = some a) :
  Residues key (fun b => member b ∧ key b % size < n + 1) (size * 2)
    (Function.update new (key a % (size * 2)) (some a))
  := by
  obtain ⟨hmem, hn⟩ := (h n a).mp ha
  apply (hnew.insert (h.double_free hnew ha)).congr _ fun _ _ => rfl
  intro b
  constructor
  · rintro ⟨hb, hlt⟩
    rcases Nat.lt_succ_iff_lt_or_eq.mp hlt with hlt | heq
    · exact .inr ⟨hb, hlt⟩
    · exact .inl (h.eq_of_mod_eq hb hmem (heq.trans hn.symm))
  · rintro (rfl | ⟨hb, hlt⟩)
    · exact ⟨hmem, hn ▸ Nat.lt_succ_self _⟩
    · exact ⟨hb, Nat.lt_succ_of_lt hlt⟩

/-- When the members of all slots have been put there, the table of twice the size is complete. -/
theorem double_done (hsize : 0 < size) {new : ℕ → Option α}
    (hnew : Residues key (fun b => member b ∧ key b % size < size) (size * 2) new) :
  Residues key member (size * 2) new
  := hnew.congr (fun _ => (and_iff_left (Nat.mod_lt _ hsize)).symm) fun _ _ => rfl

/-- A table of twice the size is not full. -/
theorem exists_free (h : Residues key member (size * 2) slot) (hsize : 0 < size)
    (hdistinct : ∀ a b, member a → member b → key a % size = key b % size → a = b) :
  ∃ i, i < size * 2 ∧ slot i = none
  := by
  by_contra hfull
  have htaken : ∀ i, i < size * 2 → ∃ a, member a ∧ key a % (size * 2) = i := by
    intro i hi
    cases hslot : slot i with
    | none => exact absurd ⟨i, hi, hslot⟩ hfull
    | some a => exact ⟨a, (h i a).mp hslot⟩
  obtain ⟨a, ha, hzero⟩ := htaken 0 (by omega)
  obtain ⟨b, hb, hsize'⟩ := htaken size (by omega)
  have hmod : ∀ c, key c % size = key c % (size * 2) % size := fun c =>
    (Nat.mod_mul_right_mod (key c) size 2).symm
  have hsame : key a % size = key b % size := by
    rw [hmod a, hmod b, hzero, hsize', Nat.zero_mod, Nat.mod_self]
  have heq := hdistinct a b ha hb hsame
  rw [heq, hsize'] at hzero
  omega

end Residues
