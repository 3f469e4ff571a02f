import FWServer.Skynet.StmObject

/-!
# The copies of a shared object

A copy of `lualib-src/lua-stm.c` has the references of the readers that know it, of the threads that are replacing
it, and of the object while it points at it, and is freed when they are gone.  They are not more than `2 ^ 31`, for
then an assertion of `stm_copy` fails.  The copies come in the order of the updates, so a reader that has been given
one is never given an older one.
-/

namespace Skynet

namespace Stm

open Counts (count)
open Programs (owned)
open Node (touch_fields)

/-! ### What an instruction stands for -/

/-- One for the copy `c`. -/
def single (c : ℕ) (copy : Option ℕ) : ℕ :=
  if copy = some c then 1 else 0

theorem single_self (c : ℕ) :
  single c (some c) = 1
  := if_pos rfl

theorem single_of_ne {c d : ℕ} (hne : c ≠ d) :
  single c (some d) = 0
  := if_neg fun heq => hne (Option.some.inj heq).symm

namespace Instr

/-- The references to the copy `c` that the thread has. -/
@[simp]
def holds (c : ℕ) : Instr → ℕ
  | .acquire _ (.update d) | .swap d => single c (some d)
  | .updateUnlock copy | .releaseCopy copy | .deliver copy _ => single c copy
  | .acquire _ (.copy box) | .acquire _ (.releaseReader box) | .reader box | .loadCopy box | .grabCopy _ box
  | .readerReference box => single c box.lastcopy
  | .copyUnlock copy box | .compare copy box => single c copy + single c box.lastcopy
  | _ => 0

/-- Whether the thread has given up the reference of the object to its copy. -/
@[simp]
def clears : Instr → ℕ
  | .clearCopy => 1
  | _ => 0

/-- Whether the thread is about to free the copy `c`. -/
@[simp]
def freesCopy (c : ℕ) : Instr → ℕ
  | .freeCopy d => single c (some d)
  | _ => 0

end Instr

/-- The reference of the object to the copy `c`. -/
def anchored (c : ℕ) (copy : Option ℕ) (clears : ℕ) : ℕ :=
  if clears = 0 then single c copy else 0

/-- A copy that has been made, and that the object has gone past. -/
def Below (w : Node) (c : ℕ) : Prop :=
  c < w.copies ∧ ∀ d, w.copy = some d → c ≤ d

/-- The function of `lread` has been called with ever newer copies, and the last of them is `lastcopy` until the
object has none. -/
structure BoxReader.Fine (w : Node) (box : BoxReader) : Prop where
  sorted : box.seen.Pairwise (· > ·)
  below : ∀ c ∈ box.seen, Below w c
  last : box.lastcopy = box.seen.head? ∨ box.lastcopy = none ∧ w.copy = none

/-- What `stm_copy` returns is no older than what the reader has seen. -/
def Current (w : Node) (box : BoxReader) : Option ℕ → Prop
  | none => w.copy = none
  | some c => Below w c ∧ (∀ x ∈ box.seen, x ≤ c) ∧ box.lastcopy = box.seen.head?

/-- What a thread knows of the order of the copies. -/
def Instr.Ordered (w : Node) : Instr → Prop
  | .reader box | .acquire _ (.copy box) | .acquire _ (.releaseReader box) | .loadCopy box | .readerReference box =>
      box.Fine w
  | .grabCopy c box => box.Fine w ∧ w.copy = some c
  | .copyUnlock ret box | .compare ret box => box.Fine w ∧ Current w box ret
  | .deliver none seen => w.copy = none ∧ seen.Pairwise (· > ·) ∧ ∀ c ∈ seen, Below w c
  | .deliver (some c) seen => Below w c ∧ seen.Pairwise (· > ·) ∧ (∀ c ∈ seen, Below w c) ∧ ∀ x ∈ seen, x < c
  | .acquire _ (.update d) | .swap d => d + 1 = w.copies ∧ ∀ c, w.copy = some c → c < d
  | _ => True

/-- What the references, the frees and the order of the copies tell of the threads. -/
structure Copied (w : Node) (todo : Multiset Instr) : Prop where
  reference : ∀ c, count (w.copyReference c) =
    owned (Instr.holds c) todo + anchored c w.copy (owned Instr.clears todo)
  bounded : ∀ c, count (w.copyReference c) ≤ 2 ^ 31
  overflow : ∀ c, 2 ^ 31 ≤ count (w.copyReference c) → w.overflowed = true
  fresh : ∀ c, w.copies ≤ c → count (w.copyReference c) = 0
  frees : ∀ c, w.copyFrees c + owned (Instr.freesCopy c) todo =
    if c < w.copies ∧ count (w.copyReference c) = 0 then 1 else 0
  copy_lt : ∀ c, w.copy = some c → c < w.copies
  ordered : ∀ i ∈ todo, i.Ordered w

section

variable {w w' : Node} {todo rest : Multiset Instr} {i : Instr} {js : List Instr} {r : Action} {c : ℕ}

/-! ### Copies that are replaced -/

/-- The object goes on to newer copies. -/
structure Advance (w w' : Node) : Prop where
  copies : w.copies ≤ w'.copies
  copy : ∀ d', w'.copy = some d' → ∃ d, w.copy = some d ∧ d ≤ d'

theorem Advance.refl (hcopies : w'.copies = w.copies) (hcopy : w'.copy = w.copy) :
  Advance w w'
  where
  copies := Nat.le_of_eq hcopies.symm
  copy d' hd' := ⟨d', hcopy ▸ hd', Nat.le_refl d'⟩

theorem Advance.none (h : Advance w w') (hnone : w.copy = none) :
  w'.copy = none
  := by
  cases hcopy : w'.copy with
  | none => rfl
  | some d' =>
      obtain ⟨d, hd, -⟩ := h.copy d' hcopy
      cases hnone.symm.trans hd

theorem Below.advance (h : Below w c) (hadvance : Advance w w') :
  Below w' c
  := by
  use Nat.lt_of_lt_of_le h.1 hadvance.copies
  intro d' hd'
  obtain ⟨d, hd, hle⟩ := hadvance.copy d' hd'
  exact Nat.le_trans (h.2 d hd) hle

theorem BoxReader.Fine.advance {box : BoxReader} (h : box.Fine w) (hadvance : Advance w w') :
  box.Fine w'
  where
  sorted := h.sorted
  below c hc := (h.below c hc).advance hadvance
  last := h.last.imp_right fun hlast => ⟨hlast.1, hadvance.none hlast.2⟩

theorem Current.advance {box : BoxReader} {ret : Option ℕ} (h : Current w box ret) (hadvance : Advance w w') :
  Current w' box ret
  := by
  cases ret with
  | none => exact hadvance.none h
  | some c => exact ⟨h.1.advance hadvance, h.2⟩

/-- What a thread knows stays true, unless it is inside or has the box of the writer. -/
theorem Instr.Ordered.advance (h : i.Ordered w) (hadvance : Advance w w')
    (hreader : i.readers = 0 ∨ w'.copy = w.copy)
    (hkeeper : i.keepers = 0 ∨ w'.copy = w.copy ∧ w'.copies = w.copies) :
  i.Ordered w'
  := by
  cases i with
  | reader box => exact BoxReader.Fine.advance h hadvance
  | acquire a s =>
      cases s with
      | copy box => exact BoxReader.Fine.advance h hadvance
      | releaseReader box => exact BoxReader.Fine.advance h hadvance
      | update d =>
          obtain hkeeper | ⟨hcopy, hcopies⟩ := hkeeper
          · cases hkeeper
          · exact ⟨hcopies ▸ h.1, hcopy ▸ h.2⟩
      | _ => trivial
  | loadCopy box => exact BoxReader.Fine.advance h hadvance
  | readerReference box => exact BoxReader.Fine.advance h hadvance
  | grabCopy c box =>
      obtain hreader | hcopy := hreader
      · cases hreader
      · exact ⟨h.1.advance hadvance, hcopy.trans h.2⟩
  | copyUnlock ret box => exact ⟨h.1.advance hadvance, h.2.advance hadvance⟩
  | compare ret box => exact ⟨h.1.advance hadvance, h.2.advance hadvance⟩
  | deliver ret seen =>
      cases ret with
      | none => exact ⟨hadvance.none h.1, h.2.1, fun c hc => (h.2.2 c hc).advance hadvance⟩
      | some c =>
          exact ⟨h.1.advance hadvance, h.2.1, fun x hx => (h.2.2.1 x hx).advance hadvance, h.2.2.2⟩
  | swap d =>
      obtain hkeeper | ⟨hcopy, hcopies⟩ := hkeeper
      · cases hkeeper
      · exact ⟨hcopies ▸ h.1, hcopy ▸ h.2⟩
  | _ => trivial

/-- The other threads still know what they knew, and those that replace one know enough. -/
theorem ordered_replace (h : ∀ j ∈ i ::ₘ rest, j.Ordered w) (hadvance : Advance w w')
    (hrest : ∀ j ∈ rest, (j.readers = 0 ∨ w'.copy = w.copy) ∧
      (j.keepers = 0 ∨ w'.copy = w.copy ∧ w'.copies = w.copies)) (hjs : ∀ j ∈ js, j.Ordered w') :
  ∀ j ∈ ↑js + rest, j.Ordered w'
  := by
  intro j hj
  rcases Multiset.mem_add.mp hj with hj | hj
  · exact hjs j hj
  · exact (h j (Multiset.mem_cons_of_mem hj)).advance hadvance (hrest j hj).1 (hrest j hj).2

/-- An instruction that does nothing to the copies, and is followed by others that stand for the same. -/
theorem Copied.pass (h : Copied w (i ::ₘ rest))
    (hw : w'.copy = w.copy ∧ w'.copies = w.copies ∧ w'.copyReference = w.copyReference ∧
      w'.copyFrees = w.copyFrees ∧ (w.overflowed = true → w'.overflowed = true))
    (hholds : ∀ c, (js.map (Instr.holds c)).sum = i.holds c) (hclears : (js.map Instr.clears).sum = i.clears)
    (hfrees : ∀ c, (js.map (Instr.freesCopy c)).sum = i.freesCopy c) (hjs : ∀ j ∈ js, j.Ordered w) :
  Copied w' (↑js + rest)
  := by
  obtain ⟨hreference, hbounded, hoverflow, hfresh, hfree, hlt, hordered⟩ := h
  obtain ⟨hcopy, hcopies, hreferences, hcopyFrees, hoverflowed⟩ := hw
  have hadvance := Advance.refl hcopies hcopy
  constructor
  · intro c
    rw [hreferences, hreference c, hcopy, Programs.owned_coe_add, Programs.owned_coe_add, hholds c, hclears,
      Programs.owned_cons, Programs.owned_cons]
  · rwa [hreferences]
  · rw [hreferences]
    exact fun c hlarge => hoverflowed (hoverflow c hlarge)
  · rwa [hcopies, hreferences]
  · intro c
    rw [hcopies, hreferences, hcopyFrees, ← hfree c, Programs.owned_coe_add, hfrees c, Programs.owned_cons]
  · rwa [hcopy, hcopies]
  · apply ordered_replace hordered hadvance (fun j _ => ⟨.inr hcopy, .inr ⟨hcopy, hcopies⟩⟩)
    exact fun j hj => (hjs j hj).advance hadvance (.inr hcopy) (.inr ⟨hcopy, hcopies⟩)

/-! ### What an instruction does to the copies -/

/-- A copy that somebody has a reference to has been made and has not been freed. -/
theorem Copied.live (h : Copied w todo) (hc : 0 < count (w.copyReference c)) :
  c < w.copies ∧ w.copyFrees c = 0
  := by
  constructor
  · by_contra hge
    exact Nat.ne_of_gt hc (h.fresh c (Nat.le_of_not_lt hge))
  · have hfree := h.frees c
    rw [if_neg fun hdead => Nat.ne_of_gt hc hdead.2] at hfree
    omega

/-- `stm_newcopy`, by a thread that knows no copy. -/
theorem Copied.newCopy {msg : List UInt8} (h : Copied w (i ::ₘ rest)) (hi : ∀ c, i.holds c = 0)
    (hclears : i.clears = 0) (hfrees : ∀ c, i.freesCopy c = 0) (hkeepers : ∀ j ∈ rest, j.keepers = 0)
    (hjs : ∀ j ∈ js, j.Ordered (w.newCopy msg)) (hholds : ∀ c, (js.map (Instr.holds c)).sum = single c (some w.copies))
    (hjclears : (js.map Instr.clears).sum = 0) (hjfrees : ∀ c, (js.map (Instr.freesCopy c)).sum = 0) :
  Copied (w.newCopy msg) (↑js + rest)
  := by
  obtain ⟨hreference, hbounded, hoverflow, hfresh, hfree, hlt, hordered⟩ := h
  have hcopy : (w.newCopy msg).copy = w.copy := rfl
  have hcopies : (w.newCopy msg).copies = w.copies + 1 := rfl
  have hself : (w.newCopy msg).copyReference w.copies = 1 := Function.update_self _ _ _
  have hother (c : ℕ) (hne : c ≠ w.copies) : (w.newCopy msg).copyReference c = w.copyReference c :=
    Function.update_of_ne hne _ _
  constructor
  · intro c
    have hc := hreference c
    rw [Programs.owned_cons, Programs.owned_cons, hi, hclears] at hc
    rw [Programs.owned_coe_add, Programs.owned_coe_add, hholds, hjclears, hcopy]
    rcases eq_or_ne c w.copies with rfl | hne
    · have hzero := hfresh w.copies (Nat.le_refl _)
      rw [hself, single_self, Counts.count_one]
      omega
    · rw [hother c hne, single_of_ne hne, hc]
  · intro c
    rcases eq_or_ne c w.copies with rfl | hne
    · rw [hself, Counts.count_one]
      decide
    · rw [hother c hne]
      exact hbounded c
  · intro c hlarge
    rcases eq_or_ne c w.copies with rfl | hne
    · rw [hself, Counts.count_one] at hlarge
      exact absurd hlarge (by decide)
    · rw [hother c hne] at hlarge
      exact hoverflow c hlarge
  · intro c hc
    rw [hcopies] at hc
    rw [hother c (by omega)]
    exact hfresh c (by omega)
  · intro c
    have hc := hfree c
    rw [Programs.owned_cons, hfrees] at hc
    rw [Programs.owned_coe_add, hjfrees]
    refine Eq.trans hc ?_
    rcases eq_or_ne c w.copies with rfl | hne
    · rw [if_neg fun hdead => Nat.lt_irrefl _ hdead.1, hself, if_neg fun hdead => absurd hdead.2 (by decide)]
    · apply if_congr _ rfl rfl
      rw [hother c hne, hcopies]
      omega
  · exact fun c hc => Nat.lt_succ_of_lt (hlt c hc)
  · apply ordered_replace hordered _ _ hjs
    · exact ⟨Nat.le_succ _, fun d' hd' => ⟨d', hd', Nat.le_refl d'⟩⟩
    · exact fun j hj => ⟨.inr rfl, .inl (hkeepers j hj)⟩

/-- Nobody has given up the reference of the object but a thread that has the lock as a writer. -/
theorem clears_eq_zero (h : ∀ j ∈ rest, j.writers = 0) :
  owned Instr.clears rest = 0
  := by
  apply Programs.owned_eq_zero
  intro j hj
  have hj := h j hj
  cases j <;> simp_all

theorem Copied.swap {d : ℕ} (h : Copied w (.swap d ::ₘ rest)) (hcounted : Counted w (.swap d ::ₘ rest)) :
  Copied { w.touch with copy := some d } (↑[Instr.updateUnlock w.copy] + rest)
  := by
  have hown := h.ordered (.swap d) (Multiset.mem_cons_self _ _)
  obtain ⟨hreference, hbounded, hoverflow, hfresh, hfree, hlt, hordered⟩ := h
  have halone := hcounted.alone_of_writer (hcounted.alive (by simp)).2.2.1 rfl
  obtain ⟨hsome, hkeepers⟩ := hcounted.alone_of_keeper rfl
  obtain ⟨e, he⟩ := Option.isSome_iff_exists.mp hsome
  have hclears : owned Instr.clears rest = 0 := clears_eq_zero fun j hj => (halone j hj).2
  constructor
  · intro c
    have hc := hreference c
    rw [Programs.owned_cons, Programs.owned_cons, hclears] at hc
    rw [Programs.owned_coe_add, Programs.owned_coe_add, hclears]
    simp only [anchored, List.map_cons, List.map_nil, List.sum_cons, List.sum_nil, Instr.holds, Instr.clears,
      Nat.add_zero, if_true] at hc ⊢
    simp only [touch_fields]
    omega
  · exact hbounded
  · exact hoverflow
  · exact hfresh
  · intro c
    rw [Programs.owned_coe_add]
    have hc := hfree c
    rw [Programs.owned_cons] at hc
    exact hc
  · intro c hc
    obtain rfl := Option.some.inj hc
    exact Nat.lt_of_lt_of_eq (Nat.lt_succ_self _) hown.1
  · apply ordered_replace hordered
    · refine ⟨Nat.le_refl _, ?_⟩
      intro d' hd'
      obtain rfl := Option.some.inj hd'
      exact ⟨e, he, Nat.le_of_lt (hown.2 e he)⟩
    · exact fun j hj => ⟨.inl (halone j hj).1, .inl (hkeepers j hj)⟩
    · intro j hj
      rw [List.mem_singleton.mp hj]
      trivial

/-- A reference to a copy is given up, by a thread that has it or by the object. -/
theorem Copied.giveUp {d : ℕ} (h : Copied w (i ::ₘ rest)) (hd : 0 < count (w.copyReference d))
    (hcopy : w'.copy = w.copy) (hcopies : w'.copies = w.copies) (hcopyFrees : w'.copyFrees = w.copyFrees)
    (hoverflowed : w'.overflowed = w.overflowed)
    (hreferences : w'.copyReference = Function.update w.copyReference d (w.copyReference d - 1))
    (hi : ∀ c, i.freesCopy c = 0)
    (hone : ∀ c, i.holds c + anchored c w.copy (i.clears + owned Instr.clears rest) = single c (some d) +
      ((js.map (Instr.holds c)).sum + anchored c w.copy ((js.map Instr.clears).sum + owned Instr.clears rest)))
    (hfrees : ∀ c, (js.map (Instr.freesCopy c)).sum = if w.copyReference d - 1 = 0 then single c (some d) else 0)
    (hjs : ∀ j ∈ js, j.Ordered w) :
  Copied w' (↑js + rest)
  := by
  have hlive := h.live hd
  obtain ⟨hreference, hbounded, hoverflow, hfresh, hfree, hlt, hordered⟩ := h
  have hadvance := Advance.refl hcopies hcopy
  have hself : count (w'.copyReference d) = count (w.copyReference d) - 1 := by
    rw [hreferences, Function.update_self, Counts.count_sub_one hd]
  have hother (c : ℕ) (hne : c ≠ d) : w'.copyReference c = w.copyReference c := by
    rw [hreferences, Function.update_of_ne hne]
  have hle (c : ℕ) : count (w'.copyReference c) ≤ count (w.copyReference c) := by
    rcases eq_or_ne c d with rfl | hne
    · rw [hself]
      exact Nat.sub_le _ _
    · rw [hother c hne]
  constructor
  · intro c
    have hc := hreference c
    have hsum := hone c
    rw [Programs.owned_cons, Programs.owned_cons] at hc
    rw [Programs.owned_coe_add, Programs.owned_coe_add, hcopy]
    rcases eq_or_ne c d with rfl | hne
    · rw [single_self] at hsum
      rw [hself, hc]
      omega
    · rw [single_of_ne hne] at hsum
      rw [hother c hne, hc]
      omega
  · exact fun c => Nat.le_trans (hle c) (hbounded c)
  · rw [hoverflowed]
    exact fun c hlarge => hoverflow c (Nat.le_trans hlarge (hle c))
  · intro c hc
    rw [hcopies] at hc
    exact Nat.le_zero.mp (Nat.le_trans (hle c) (Nat.le_of_eq (hfresh c hc)))
  · intro c
    have hc := hfree c
    rw [Programs.owned_cons, hi] at hc
    rw [hcopyFrees, Programs.owned_coe_add, hfrees, hcopies]
    rcases eq_or_ne c d with rfl | hne
    · rw [if_neg fun hdead => Nat.ne_of_gt hd hdead.2] at hc
      rw [hself, single_self]
      split
      · next hlast =>
          have hone := (Counts.sub_one_eq_zero hd).mp hlast
          rw [if_pos ⟨hlive.1, by omega⟩]
          omega
      · next hleft =>
          have hne : count (w.copyReference c) ≠ 1 := fun hone => hleft ((Counts.sub_one_eq_zero hd).mpr hone)
          rw [if_neg fun hdead => hne (by omega)]
          omega
    · have hzero : (if w.copyReference d - 1 = 0 then single c (some d) else 0) = 0 := by
        rw [single_of_ne hne, ite_self]
      rw [hother c hne, hzero]
      exact hc
  · rwa [hcopy, hcopies]
  · apply ordered_replace hordered hadvance (fun j _ => ⟨.inr hcopy, .inr ⟨hcopy, hcopies⟩⟩)
    exact fun j hj => (hjs j hj).advance hadvance (.inr hcopy) (.inr ⟨hcopy, hcopies⟩)

/-- Whoever has a reference is counted. -/
theorem Copied.reference_pos (h : Copied w (i ::ₘ rest)) (hi : 0 < i.holds c) :
  0 < count (w.copyReference c)
  := by
  rw [h.reference c, Programs.owned_cons]
  omega

theorem single_pos (c : ℕ) :
  0 < single c (some c)
  := Nat.lt_of_lt_of_eq Nat.one_pos (single_self c).symm

theorem Copied.releaseCopy {copy : Option ℕ} (h : Copied w (.releaseCopy copy ::ₘ rest)) :
  Copied (w.releaseCopy copy).1 (↑(w.releaseCopy copy).2 + rest)
  := by
  cases copy with
  | none =>
      exact h.pass ⟨rfl, rfl, rfl, rfl, id⟩ (by simp [Node.releaseCopy, single]) rfl (fun _ => rfl)
        (by simp [Node.releaseCopy])
  | some d =>
      refine h.giveUp (h.reference_pos (single_pos d)) ?_ ?_ ?_ ?_ ?_ (fun _ => rfl) ?_ ?_ ?_
      · rfl
      · rfl
      · rfl
      · rfl
      · rfl
      · intro c
        simp only [Node.releaseCopy]
        split <;> simp
      · intro c
        simp only [Node.releaseCopy]
        split <;> simp
      · intro j hj
        simp only [Node.releaseCopy] at hj
        split at hj
        · rw [List.mem_singleton.mp hj]
          trivial
        · cases hj

/-- The object has its reference to the last copy until the writer gives it up. -/
theorem Copied.reference_last (h : Copied w (.releaseLast ::ₘ rest))
    (hcounted : Counted w (.releaseLast ::ₘ rest)) :
  owned Instr.clears rest = 0 ∧ ∃ d, w.copy = some d ∧ 0 < count (w.copyReference d)
  := by
  have halone := hcounted.alone_of_writer (hcounted.alive (by simp)).2.2.1 rfl
  have hclears : owned Instr.clears rest = 0 := clears_eq_zero fun j hj => (halone j hj).2
  obtain ⟨d, hd⟩ := Option.isSome_iff_exists.mp (hcounted.alone_of_keeper rfl).1
  have hanchor : 0 < anchored d w.copy (owned Instr.clears (.releaseLast ::ₘ rest)) := by
    rw [Programs.owned_cons, hclears, hd]
    exact single_pos d
  use hclears, d, hd
  rw [h.reference d]
  omega

theorem Copied.releaseLast (h : Copied w (.releaseLast ::ₘ rest)) (hcounted : Counted w (.releaseLast ::ₘ rest)) :
  Copied (w.touch.releaseCopy w.copy).1 (↑((w.touch.releaseCopy w.copy).2 ++ [Instr.clearCopy]) + rest)
  := by
  obtain ⟨hclears, d, hd, hpos⟩ := h.reference_last hcounted
  rw [hd]
  refine h.giveUp hpos ?_ ?_ ?_ ?_ ?_ (fun _ => rfl) ?_ ?_ ?_
  · rfl
  · rfl
  · rfl
  · rfl
  · rfl
  · intro c
    simp only [Node.releaseCopy, touch_fields, hclears, hd]
    split <;> simp [anchored]
  · intro c
    simp only [Node.releaseCopy, touch_fields]
    split <;> simp
  · intro j hj
    rcases List.mem_append.mp hj with hj | hj
    · simp only [Node.releaseCopy] at hj
      split at hj
      · rw [List.mem_singleton.mp hj]
        trivial
      · cases hj
    · rw [List.mem_singleton.mp hj]
      trivial

theorem Copied.freeCopy {d : ℕ} (h : Copied w (.freeCopy d ::ₘ rest)) :
  Copied { w with copyFrees := Function.update w.copyFrees d (w.copyFrees d + 1) } rest
  := by
  obtain ⟨hreference, hbounded, hoverflow, hfresh, hfree, hlt, hordered⟩ := h
  constructor
  · intro c
    have hc := hreference c
    rw [Programs.owned_cons, Programs.owned_cons] at hc
    simpa using hc
  · exact hbounded
  · exact hoverflow
  · exact hfresh
  · intro c
    refine Eq.trans ?_ (hfree c)
    rw [Programs.owned_cons]
    simp only [Instr.freesCopy, single]
    rcases eq_or_ne c d with rfl | hne
    · rw [Function.update_self, if_pos rfl]
      omega
    · rw [Function.update_of_ne hne, if_neg fun heq => hne (Option.some.inj heq).symm]
      omega
  · exact hlt
  · exact fun j hj => (hordered j (Multiset.mem_cons_of_mem hj)).advance (.refl rfl rfl) (.inr rfl) (.inr ⟨rfl, rfl⟩)

theorem Copied.clearCopy (h : Copied w (.clearCopy ::ₘ rest)) (hcounted : Counted w (.clearCopy ::ₘ rest)) :
  Copied { w.touch with copy := none } (↑[Instr.releaseReference] + rest)
  := by
  obtain ⟨hreference, hbounded, hoverflow, hfresh, hfree, hlt, hordered⟩ := h
  have halone := hcounted.alone_of_writer (hcounted.alive (by simp)).2.2.1 rfl
  have hkeepers := (hcounted.alone_of_keeper rfl).2
  constructor
  · intro c
    have hc := hreference c
    rw [Programs.owned_cons, Programs.owned_cons] at hc
    rw [Programs.owned_coe_add, Programs.owned_coe_add]
    simpa [anchored, single] using hc
  · exact hbounded
  · exact hoverflow
  · exact hfresh
  · intro c
    have hc := hfree c
    rw [Programs.owned_cons] at hc
    rw [Programs.owned_coe_add]
    exact hc
  · intro c hc
    cases hc
  · apply ordered_replace hordered
    · use Nat.le_refl _
      intro d' hd'
      cases hd'
    · exact fun j hj => ⟨.inl (halone j hj).1, .inl (hkeepers j hj)⟩
    · intro j hj
      rw [List.mem_singleton.mp hj]
      trivial

/-- The object has its reference to a copy that a thread inside has found in it. -/
theorem Copied.reference_grab {d : ℕ} {box : BoxReader} (h : Copied w (.grabCopy d box ::ₘ rest))
    (hcounted : Counted w (.grabCopy d box ::ₘ rest)) :
  0 < count (w.copyReference d)
  := by
  have hown := h.ordered (.grabCopy d box) (Multiset.mem_cons_self _ _)
  -- Nobody is inside as a writer.
  have hclears : owned Instr.clears rest = 0 := by
    have hexclusive := (hcounted.lock (hcounted.alive (by simp)).2.2.1).exclusive
    rw [Programs.owned_cons, Programs.owned_cons] at hexclusive
    simp only [Instr.readers, Instr.writers] at hexclusive
    exact clears_eq_zero (Programs.eq_zero_of_owned_eq_zero (by omega))
  have hanchor : 0 < anchored d w.copy (owned Instr.clears (.grabCopy d box ::ₘ rest)) := by
    rw [Programs.owned_cons, hclears, hown.2]
    exact single_pos d
  rw [h.reference d]
  omega

theorem Copied.grabCopy {d : ℕ} {box : BoxReader} (h : Copied w (.grabCopy d box ::ₘ rest))
    (hpos : 0 < w.copyReference d) :
  Copied { (w.touchCopy d).overflow (w.copyReference d) with
      copyReference := Function.update w.copyReference d (w.copyReference d + 1) }
    (↑[Instr.copyUnlock (some d) box] + rest)
  := by
  have hown := h.ordered (.grabCopy d box) (Multiset.mem_cons_self _ _)
  obtain ⟨hlarger, hfits⟩ := Counts.pos_iff.mp hpos
  have hlive := h.live hlarger
  obtain ⟨hreference, hbounded, hoverflow, hfresh, hfree, hlt, hordered⟩ := h
  have hself : count (Function.update w.copyReference d (w.copyReference d + 1) d) =
      count (w.copyReference d) + 1 := by
    rw [Function.update_self, Counts.count_add_one (by omega)]
  have hother (c : ℕ) (hne : c ≠ d) :
      Function.update w.copyReference d (w.copyReference d + 1) c = w.copyReference c :=
    Function.update_of_ne hne _ _
  constructor
  · intro c
    have hc := hreference c
    rw [Programs.owned_cons, Programs.owned_cons] at hc
    rw [Programs.owned_coe_add, Programs.owned_coe_add]
    simp only [List.map_cons, List.map_nil, List.sum_cons, List.sum_nil, Instr.holds, Instr.clears, Nat.add_zero,
      Nat.zero_add] at hc ⊢
    change count (Function.update w.copyReference d (w.copyReference d + 1) c) =
      single c (some d) + single c box.lastcopy + owned (Instr.holds c) rest +
        anchored c w.copy (owned Instr.clears rest)
    rcases eq_or_ne c d with rfl | hne
    · rw [hself, hc, single_self]
      omega
    · rw [hother c hne, hc, single_of_ne hne, Nat.zero_add]
  · intro c
    change count (Function.update w.copyReference d (w.copyReference d + 1) c) ≤ 2 ^ 31
    rcases eq_or_ne c d with rfl | hne
    · rw [hself]
      omega
    · rw [hother c hne]
      exact hbounded c
  · intro c hlarge
    change 2 ^ 31 ≤ count (Function.update w.copyReference d (w.copyReference d + 1) c) at hlarge
    change (w.overflowed || decide (w.copyReference d = Int32.maxValue)) = true
    rw [Bool.or_eq_true, decide_eq_true_eq]
    rcases eq_or_ne c d with rfl | hne
    · rw [hself] at hlarge
      exact .inr (Counts.eq_maxValue (by omega))
    · rw [hother c hne] at hlarge
      exact .inl (hoverflow c hlarge)
  · intro c hc
    change count (Function.update w.copyReference d (w.copyReference d + 1) c) = 0
    rw [hother c (Nat.ne_of_gt (Nat.lt_of_lt_of_le hlive.1 hc))]
    exact hfresh c hc
  · intro c
    have hc := hfree c
    rw [Programs.owned_cons] at hc
    rw [Programs.owned_coe_add]
    refine Eq.trans hc ?_
    apply if_congr _ rfl rfl
    change _ ↔ c < w.copies ∧ count (Function.update w.copyReference d (w.copyReference d + 1) c) = 0
    rcases eq_or_ne c d with rfl | hne
    · rw [hself]
      omega
    · rw [hother c hne]
  · exact hlt
  · have hadvance : Advance w { (w.touchCopy d).overflow (w.copyReference d) with
        copyReference := Function.update w.copyReference d (w.copyReference d + 1) } :=
      .refl rfl rfl
    apply ordered_replace hordered hadvance (fun j _ => ⟨.inr rfl, .inr ⟨rfl, rfl⟩⟩)
    intro j hj
    rw [List.mem_singleton.mp hj]
    have hbelow : Below w d := by
      use hlive.1
      intro e he
      obtain rfl := Option.some.inj (hown.2.symm.trans he)
      exact Nat.le_refl _
    refine ⟨hown.1.advance hadvance, hbelow.advance hadvance, ?_, ?_⟩
    · intro x hx
      exact (hown.1.below x hx).2 d hown.2
    · rcases hown.1.last with hlast | ⟨-, hnone⟩
      · exact hlast
      · cases hnone.symm.trans hown.2

/-- An assertion fails. -/
theorem Copied.abort (h : Copied w (i ::ₘ rest)) (hw : w'.copy = w.copy ∧ w'.copies = w.copies ∧
    w'.copyReference = w.copyReference ∧ w'.copyFrees = w.copyFrees ∧ (w.overflowed = true → w'.overflowed = true)) :
  Copied w' (↑[i] + rest)
  := by
  refine h.pass hw (by simp) (by simp) (by simp) ?_
  intro j hj
  rw [List.mem_singleton.mp hj]
  exact h.ordered i (Multiset.mem_cons_self _ _)

/-- A reader that has found a copy other than the last one has found a newer one. -/
theorem ordered_compare {ret : Option ℕ} {box : BoxReader} (h : (Instr.compare ret box).Ordered w) :
  ∀ j ∈ if ret = box.lastcopy then [Instr.releaseCopy ret, .reader box]
    else [Instr.releaseCopy box.lastcopy, .deliver ret box.seen], j.Ordered w
  := by
  obtain ⟨hfine, hcurrent⟩ := h
  split
  · intro j hj
    rcases List.mem_pair.mp hj with rfl | rfl
    · trivial
    · exact hfine
  · next hne =>
      intro j hj
      rcases List.mem_pair.mp hj with rfl | rfl
      · trivial
      · cases ret with
        | none => exact ⟨hcurrent, hfine.sorted, hfine.below⟩
        | some c =>
            obtain ⟨hbelow, hle, hlast⟩ := hcurrent
            refine ⟨hbelow, hfine.sorted, hfine.below, ?_⟩
            have hsorted := hfine.sorted
            cases hseen : box.seen with
            | nil =>
                intro x hx
                cases hx
            | cons y seen =>
                rw [hseen] at hlast hsorted hle
                have hy : y < c := by
                  apply Nat.lt_of_le_of_ne (hle y List.mem_cons_self)
                  rintro rfl
                  exact hne hlast.symm
                intro x hx
                rcases List.mem_cons.mp hx with rfl | hx
                · exact hy
                · exact Nat.lt_trans (List.rel_of_pairwise_cons hsorted hx) hy

/-- The function has been called with a newer copy. -/
theorem ordered_deliver {d : ℕ} {seen : List ℕ} (h : (Instr.deliver (some d) seen).Ordered w) :
  BoxReader.Fine w ⟨some d, d :: seen⟩
  where
  sorted := List.pairwise_cons.mpr ⟨h.2.2.2, h.2.1⟩
  below c hc := by
    rcases List.mem_cons.mp hc with rfl | hc
    · exact h.1
    · exact h.2.2.1 c hc
  last := .inl rfl

end

end Stm

end Skynet
