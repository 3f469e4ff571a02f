import FWServer.Util.Timer
import Mathlib.Algebra.Order.Ring.Int

/-!
# The ids of timers

`util/timer.lua`: `genTimerId` looks at the id after the last one, then at those up to `max_int`, and then
at those from 1 on, and makes the first free id the last one.

The id after the last one is not compared with `max_int`.  So when `max_int` was the last id, and only then,
an id is handed out that is too large.
-/

namespace TimerIds

open Timer

variable {φ : Type}

/-- `checkToUsed` -/
def checkToUsed (t : ℤ) (s : State φ) : Option ℤ × State φ :=
  if (s.tab t).isNone then (some t, { s with timerId := t }) else (none, s)

/-- The loop over the `n` ids from `i` on. -/
def checkFrom (s : State φ) : ℕ → ℤ → Option ℤ × State φ
  | 0, _ => (none, s)
  | n + 1, i =>
      match checkToUsed i s with
      | (some usedid, s') => (some usedid, s')
      | (none, _) => checkFrom s n (i + 1)

/-- `genTimerId` -/
def genTimerId (s : State φ) : Option ℤ × State φ :=
  let t := s.timerId + 1
  match checkToUsed t s with
  | (some usedid, s') => (some usedid, s')
  | (none, _) =>
      let t := t + 1
      match if t ≤ maxInt then checkFrom s (maxInt + 1 - t).toNat t else (none, s) with
      | (some usedid, s') => (some usedid, s')
      | (none, _) => if t - 1 ≥ 1 then checkFrom s (t - 1).toNat 1 else (none, s)

/-! ### The ids that are found -/

/-- What a search does: it makes the id it finds the last one. -/
def found (s : State φ) (usedid : Option ℤ) : Option ℤ × State φ :=
  (usedid, { s with timerId := usedid.getD s.timerId })

theorem checkToUsed_eq (t : ℤ) (s : State φ) :
  checkToUsed t s = found s (if (s.tab t).isNone then some t else none)
  := by
  unfold checkToUsed
  split
  · rfl
  · rfl

theorem checkFrom_eq (s : State φ) (n : ℕ) (i : ℤ) :
  checkFrom s n i = found s (firstFree s.tab n i)
  := by
  induction n generalizing i with
  | zero => rfl
  | succ n ih =>
      rw [checkFrom, checkToUsed_eq, firstFree]
      split_ifs
      · rfl
      · apply ih

/-- The id that is found, and made the last one, is the id of a new timer. -/
theorem genTimerId_eq (s : State φ) :
  genTimerId s = found s (Timer.genTimerId s)
  := by
  have hlength : (maxInt + 1 - (s.timerId + 1 + 1)).toNat = (maxInt - (s.timerId + 1)).toNat := by
    congr 1
    omega
  have hforward : (if s.timerId + 1 + 1 ≤ maxInt then
        checkFrom s (maxInt + 1 - (s.timerId + 1 + 1)).toNat (s.timerId + 1 + 1)
      else (none, s)) =
      found s (firstFree s.tab (maxInt - (s.timerId + 1)).toNat (s.timerId + 1 + 1)) := by
    rw [checkFrom_eq, hlength]
    split
    · rfl
    · next hlt =>
        rw [Int.toNat_of_nonpos (by omega)]
        rfl
  have hback : (if s.timerId + 1 + 1 - 1 ≥ 1 then checkFrom s (s.timerId + 1 + 1 - 1).toNat 1
      else (none, s)) = found s (firstFree s.tab (s.timerId + 1).toNat 1) := by
    rw [checkFrom_eq, Int.add_sub_cancel]
    split
    · rfl
    · next hlt =>
        rw [Int.toNat_of_nonpos (by omega)]
        rfl
  unfold genTimerId Timer.genTimerId
  dsimp only
  rw [hforward, hback, checkToUsed_eq]
  split_ifs
  · rfl
  · cases firstFree s.tab (maxInt - (s.timerId + 1)).toNat (s.timerId + 1 + 1) with
    | none => rfl
    | some i => rfl

/-! ### The range of the ids -/

/-- The id can be handed out. -/
def Free (s : State φ) (i : ℤ) : Prop :=
  1 ≤ i ∧ i ≤ maxInt ∧ s.tab i = none

/-- A search finds an id of its range that is free. -/
theorem firstFree_eq_some {tab : ℤ → Option ℤ} {n : ℕ} {i j : ℤ} (h : firstFree tab n i = some j) :
  i ≤ j ∧ j < i + n ∧ tab j = none
  := by
  induction n generalizing i with
  | zero => cases h
  | succ n ih =>
      rw [firstFree] at h
      split at h
      · next hfree =>
          obtain rfl := Option.some.inj h
          use le_rfl, by omega
          apply Option.isNone_iff_eq_none.mp hfree
      · obtain ⟨hij, hj, hfree⟩ := ih h
        use by omega, by omega

/-- A search that finds nothing has been to all ids of its range. -/
theorem firstFree_eq_none {tab : ℤ → Option ℤ} {n : ℕ} {i j : ℤ} (h : firstFree tab n i = none)
    (hij : i ≤ j) (hj : j < i + n) :
  tab j ≠ none
  := by
  induction n generalizing i with
  | zero => omega
  | succ n ih =>
      rw [firstFree] at h
      split at h
      · cases h
      · next hused =>
          rcases eq_or_lt_of_le hij with rfl | hlt
          · exact fun hnone => hused (Option.isNone_iff_eq_none.mpr hnone)
          · apply ih h
            · omega
            · omega

/-- The id that is found is free, and is one of the range unless it is the one after the last. -/
theorem genTimerId_eq_some {s : State φ} (hnonneg : 0 ≤ s.timerId) (hle : s.timerId ≤ maxInt) {i : ℤ}
    (h : Timer.genTimerId s = some i) :
  s.tab i = none ∧ (i = s.timerId + 1 ∨ 1 ≤ i ∧ i ≤ maxInt)
  := by
  unfold Timer.genTimerId at h
  dsimp only at h
  split at h
  · next hfree =>
      obtain rfl := Option.some.inj h
      use Option.isNone_iff_eq_none.mp hfree
      left
      rfl
  · next hused =>
      rw [Option.orElse_eq_or] at h
      rcases Option.or_eq_some_iff.mp h with hforward | ⟨-, hback⟩
      · obtain ⟨hi, hi', hfree⟩ := firstFree_eq_some hforward
        use hfree
        right
        omega
      · obtain ⟨hi, hi', hfree⟩ := firstFree_eq_some hback
        use hfree
        omega

/-- A free id of the range is found. -/
theorem genTimerId_ne_none {s : State φ} (hle : s.timerId ≤ maxInt) {i : ℤ} (h : Free s i) :
  Timer.genTimerId s ≠ none
  := by
  obtain ⟨hpos, hmax, hfree⟩ := h
  unfold Timer.genTimerId
  dsimp only
  split
  · exact nofun
  · intro hnone
    rw [Option.orElse_eq_or] at hnone
    obtain ⟨hforward, hback⟩ := Option.or_eq_none_iff.mp hnone
    rcases le_or_gt i (s.timerId + 1) with hi | hi
    · apply firstFree_eq_none hback hpos _ hfree
      omega
    · apply firstFree_eq_none hforward _ _ hfree
      · omega
      · omega

/-- When there is an id to hand out, one is found and made the last. -/
def HandsOut (s : State φ) : Prop :=
  (∃ i, Free s i) → ∃ i, genTimerId s = (some i, { s with timerId := i }) ∧ Free s i

/-- An id of the range is handed out precisely when the last one was not `max_int`, or the id after it is
used, or there is none to hand out. -/
theorem ids_in_range_iff {s : State φ} (hnonneg : 0 ≤ s.timerId) (hle : s.timerId ≤ maxInt) :
  HandsOut s ↔ s.timerId ≠ maxInt ∨ s.tab (maxInt + 1) ≠ none ∨ ¬ ∃ i, Free s i
  := by
  constructor
  · intro h
    by_contra hnot
    rw [not_or, not_or, not_not, not_not, not_not] at hnot
    obtain ⟨hlast, hnext, hexists⟩ := hnot
    obtain ⟨i, hi, -, hmax, -⟩ := h hexists
    -- the id after `max_int` is found at once
    have hfast : Timer.genTimerId s = some (maxInt + 1) := by
      rw [Timer.genTimerId, hlast, hnext]
      rfl
    rw [genTimerId_eq, hfast] at hi
    obtain rfl := Option.some.inj (Prod.mk.inj hi).1
    omega
  · intro h hexists
    obtain ⟨j, hj⟩ := hexists
    obtain ⟨i, hi⟩ := Option.ne_none_iff_exists'.mp (genTimerId_ne_none hle hj)
    obtain ⟨hfree, hrange⟩ := genTimerId_eq_some hnonneg hle hi
    use i
    constructor
    · rw [genTimerId_eq, hi]
      rfl
    · rcases hrange with rfl | hrange
      · -- the id after the last one is free, so the last one is not `max_int`
        have hlast : s.timerId ≠ maxInt := by
          rcases h with hne | hused | hnone
          · exact hne
          · rintro heq
            rw [← heq] at hused
            exact hused hfree
          · exact absurd ⟨j, hj⟩ hnone
        use by omega, by omega
      · use hrange.1, hrange.2

theorem ids_in_range_wrapped :
  HandsOut (⟨fun i => if i = maxInt + 1 then some 1 else none, maxInt, []⟩ : State Unit)
  := (ids_in_range_iff (by decide) (le_refl maxInt)).mpr (.inr (.inl (by decide)))

/-- After `max_int` an id that is too large is handed out, with all others free. -/
theorem id_out_of_range :
  ¬ ∀ s : State Unit, 0 ≤ s.timerId → s.timerId ≤ maxInt → HandsOut s
  := by
  intro h
  have hfree : Free (⟨fun _ => none, maxInt, []⟩ : State Unit) 1 := ⟨by decide, by decide, rfl⟩
  obtain ⟨i, hi, -, hmax, -⟩ := h ⟨fun _ => none, maxInt, []⟩ (by decide) (le_refl maxInt) ⟨1, hfree⟩
  have htoo : i = maxInt + 1 := (Option.some.inj (Prod.mk.inj hi).1).symm
  omega

end TimerIds
