import FWServer.Skynet.Sharedata
import Mathlib.Data.List.Induction

/-!
# The keys of a shared table

The keys of a table are numbered by the strings that have been met.  Strings are only added, so that with the strings
that are there in the end a key has the same number whenever it is met.
-/

namespace Skynet

namespace Sharedata

open Seri (Object Table)

/-- A key that is not changed when it is narrowed to an `int`. -/
def Fits (k : Int64) : Prop :=
  k.toInt32.toInt64 = k

instance (k : Int64) : Decidable (Fits k) :=
  inferInstanceAs (Decidable (k.toInt32.toInt64 = k))

/-- The keys that are copied as they are. -/
def IsShared : Object → Prop
  | .integer k => Fits k
  | .string _ => True
  | _ => False

section

variable {k : Int64}

theorem Fits.toInt_eq (h : Fits k) :
  k.toInt = k.toInt32.toInt
  := by
  conv_lhs => rw [← h]
  exact Int32.toInt_toInt64 _

theorem fits_of_toInt32 (k : Int32) :
  Fits k.toInt64
  := by
  rw [Fits, Int32.toInt32_toInt64]

theorem fits_of_lt (hle : -2 ^ 31 ≤ k.toInt) (hlt : k.toInt < 2 ^ 31) :
  Fits k
  := by
  apply Int64.toInt_inj.mp
  rw [Int32.toInt_toInt64, Int64.toInt_toInt32]
  exact Int.bmod_eq_of_le (by omega) (by omega)

theorem fits_ofNat {j : ℕ} (h : j < 2 ^ 31) :
  Fits (Int64.ofNat j)
  := by
  have hint : (Int64.ofNat j).toInt = j := Int64.toInt_ofNat_of_lt (by omega)
  exact fits_of_lt (by omega) (by omega)

end

/-! ### Strings -/

section

variable {S strings : Strings} {str : List UInt8}

theorem prefix_stringindex (strings : Strings) (str : List UInt8) :
  strings <+: (stringindex strings str).2
  := by
  rw [stringindex]
  split_ifs
  · exact List.prefix_rfl
  · exact List.prefix_append _ _

theorem mem_stringindex (strings : Strings) (str : List UInt8) :
  str ∈ (stringindex strings str).2
  := by
  rw [stringindex]
  split_ifs with h
  · exact h
  · exact List.mem_append_right _ List.mem_cons_self

theorem idxOf_eq_of_longer (h : strings <+: S) (hmem : str ∈ strings) :
  S.idxOf str = strings.idxOf str
  := by
  obtain ⟨l, rfl⟩ := h
  exact List.idxOf_append_of_mem hmem

/-- A string has the same index from the time when it is first met. -/
theorem stringindex_fst (h : (stringindex strings str).2 <+: S) :
  (stringindex strings str).1 = S.idxOf str + 2
  := by
  rw [idxOf_eq_of_longer h (mem_stringindex strings str), stringindex]
  split_ifs with hmem
  · rfl
  · rw [List.idxOf_append_of_notMem hmem]
    simp

theorem stringAt_idxOf (h : str ∈ S) :
  stringAt S (S.idxOf str + 2) = some str
  := by
  rw [stringAt, if_pos (Nat.le_add_left _ _), Nat.add_sub_cancel]
  exact List.getElem?_idxOf h

end

/-! ### Places -/

/-- Where a key belongs when all strings have been met. -/
def placed (S : Strings) (sizearray : ℕ) : Object → Place
  | .integer n => placeOf sizearray n.toInt32
  | key => .hash (.string (S.idxOf (tolstring key) + 2)) (calchash (tolstring key))

/-- A value that is copied. -/
def Produced (set : Object → Strings → Option (Val × Strings)) (S : Strings) (v : Object) (x : Val) : Prop :=
  ∃ s s', set v s = some (x, s') ∧ s' <+: S

/-- Strings are only added. -/
def Extends (set : Object → Strings → Option (Val × Strings)) : Prop :=
  ∀ v s x s', set v s = some (x, s') → s <+: s'

section

variable {S : Strings} {sizearray : ℕ} {key : Object}

theorem prefix_ishashkey (sizearray : ℕ) (key : Object) (strings : Strings) :
  strings <+: (ishashkey sizearray key strings).2
  := by
  cases key with
  | integer n => exact List.prefix_rfl
  | number bits => exact List.prefix_rfl
  | _ => exact prefix_stringindex strings _

/-- What `ishashkey` tells of a key, and that a node with this key is read as the key. -/
theorem ishashkey_spec (sizearray : ℕ) (strings : Strings) (h : IsShared key)
    (hS : (ishashkey sizearray key strings).2 <+: S) :
  (ishashkey sizearray key strings).1 = placed S sizearray key
    ∧ ∀ k keyhash (n : Node Val), placed S sizearray key = .hash k keyhash → n.key = k → pushkey S n = some key
  := by
  cases key with
  | integer m =>
      refine ⟨rfl, ?_⟩
      intro k keyhash n hplaced hn
      rw [placed, placeOf] at hplaced
      split_ifs at hplaced
      obtain ⟨rfl, -⟩ := Place.hash.inj hplaced
      rw [pushkey, hn]
      exact congrArg (some ∘ Object.integer) h
  | string s =>
      refine ⟨congrArg (fun index => Place.hash (.string index) (calchash s)) (stringindex_fst hS), ?_⟩
      intro k keyhash n hplaced hn
      obtain ⟨rfl, -⟩ := Place.hash.inj hplaced
      rw [pushkey, hn]
      exact congrArg (Option.map Object.string) (stringAt_idxOf (hS.subset (mem_stringindex strings s)))
  | _ => exact h.elim

/-- A key that belongs in the array is its index. -/
theorem eq_ofNat_of_placed {j : ℕ} (h : IsShared key) (hplaced : placed S sizearray key = .array j) :
  key = .integer (Int64.ofNat j) ∧ 0 < j ∧ j ≤ sizearray
  := by
  cases key with
  | integer n =>
      rw [placed, placeOf] at hplaced
      split_ifs at hplaced with hmem
      have hj := Place.array.inj hplaced
      refine ⟨congrArg Object.integer ?_, by omega, by omega⟩
      have hfits : Fits n := h
      rw [← hj, ← hfits.toInt_eq, ← Int64.ofInt_eq_ofNat, Int.toNat_of_nonneg (by rw [hfits.toInt_eq]; omega),
        Int64.ofInt_toInt]
  | string s => cases hplaced
  | _ => exact h.elim

theorem placed_ofNat {j : ℕ} (hpos : 0 < j) (hle : j ≤ sizearray) (hlt : j < 2 ^ 31) :
  placed S sizearray (.integer (Int64.ofNat j)) = .array j
  := by
  have hint : (Int64.ofNat j).toInt = j := Int64.toInt_ofNat_of_lt (by omega)
  have hnarrow := (fits_ofNat hlt).toInt_eq
  rw [hint] at hnarrow
  rw [placed, placeOf, ← hnarrow, if_pos (by omega)]
  rfl

end

/-! ### The loops -/

section

variable {step : Conf Val → Strings → Object × Object → Option (Conf Val × Strings)} {tbl tbl' : Conf Val}
  {strings strings' S : Strings} {e : Object × Object} {entries done : List (Object × Object)}

theorem fill_concat :
  fill step (done ++ [e]) tbl strings
    = (fill step done tbl strings).bind fun (tbl, strings) => step tbl strings e
  := by
  induction done generalizing tbl strings with
  | nil =>
      rw [List.nil_append]
      simp only [fill, Option.bind_some]
      cases step tbl strings e <;> rfl
  | cons e' done ih =>
      rw [List.cons_append, fill, fill]
      cases step tbl strings e' with
      | none => rfl
      | some r => exact ih

/-- Strings are added, and the array is as long as before. -/
structure Grows (tbl : Conf Val) (strings : Strings) (tbl' : Conf Val) (strings' : Strings) : Prop where
  strings : strings <+: strings'
  length : tbl'.array.length = tbl.array.length

theorem Grows.refl (tbl : Conf Val) (strings : Strings) :
  Grows tbl strings tbl strings
  := ⟨List.prefix_rfl, rfl⟩

theorem Grows.trans {tbl₁ : Conf Val} {s₁ : Strings} (h : Grows tbl strings tbl₁ s₁)
    (h' : Grows tbl₁ s₁ tbl' strings') :
  Grows tbl strings tbl' strings'
  := ⟨h.strings.trans h'.strings, h'.length.trans h.length⟩

/-- Each turn does so. -/
def StepGrows (step : Conf Val → Strings → Object × Object → Option (Conf Val × Strings)) : Prop :=
  ∀ e tbl s tbl' s', step tbl s e = some (tbl', s') → Grows tbl s tbl' s'

theorem grows_fill (hgrows : StepGrows step) (h : fill step done tbl strings = some (tbl', strings')) :
  Grows tbl strings tbl' strings'
  := by
  induction done generalizing tbl strings with
  | nil =>
      obtain ⟨rfl, rfl⟩ := Prod.mk.inj (Option.some.inj h)
      exact .refl _ _
  | cons e done ih =>
      rw [fill] at h
      split at h
      · cases h
      · next tbl₁ s₁ hstep => exact (hgrows e tbl strings tbl₁ s₁ hstep).trans (ih h)

/-- What holds at the start and is kept by each turn holds after any number of turns. -/
theorem fill_invariant {P : List (Object × Object) → Conf Val → Prop} (hgrows : StepGrows step)
    (hstep : ∀ done e tbl s tbl' s', done ++ [e] <+: entries → P done tbl → step tbl s e = some (tbl', s') → s' <+: S →
      P (done ++ [e]) tbl')
    (hstart : P [] tbl) (hpre : done <+: entries) (h : fill step done tbl strings = some (tbl', strings'))
    (hS : strings' <+: S) :
  P done tbl'
  := by
  induction done using List.reverseRecOn generalizing tbl' strings' with
  | nil =>
      obtain ⟨rfl, rfl⟩ := Prod.mk.inj (Option.some.inj h)
      exact hstart
  | append_singleton done e ih =>
      rw [fill_concat] at h
      obtain ⟨⟨tbl₁, s₁⟩, h₁, hlast⟩ := Option.bind_eq_some_iff.mp h
      have hgrow := hgrows e tbl₁ s₁ tbl' strings' hlast
      have hP := ih ((List.prefix_append done [e]).trans hpre) h₁ (hgrow.strings.trans hS)
      exact hstep done e tbl₁ s₁ tbl' strings' hpre hP hlast hS

/-- If each turn returns after those before it, all do. -/
theorem fill_total (hstep : ∀ done e tbl' s, done ++ [e] <+: entries → fill step done tbl strings = some (tbl', s) →
    ∃ r, step tbl' s e = some r) (hpre : done <+: entries) :
  ∃ r, fill step done tbl strings = some r
  := by
  induction done using List.reverseRecOn with
  | nil => exact ⟨_, rfl⟩
  | append_singleton done e ih =>
      obtain ⟨⟨tbl', s⟩, hdone⟩ := ih ((List.prefix_append done [e]).trans hpre)
      obtain ⟨r, hr⟩ := hstep done e tbl' s hpre hdone
      exact ⟨r, by rw [fill_concat, hdone]; exact hr⟩

variable {set : Object → Strings → Option (Val × Strings)}

/-- A turn of the first pass adds strings for the key, and then for the value. -/
theorem grows_fillnocollidingStep (hset : Extends set)
    (h : fillnocollidingStep set tbl strings e = some (tbl', strings')) :
  Grows tbl (ishashkey tbl.array.length e.1 strings).2 tbl' strings'
  := by
  rw [fillnocollidingStep] at h
  generalize ishashkey tbl.array.length e.1 strings = place at h
  obtain ⟨place, s₁⟩ := place
  cases place with
  | array j =>
      obtain ⟨⟨x, s₂⟩, hx, heq⟩ := Option.map_eq_some_iff.mp h
      obtain ⟨rfl, rfl⟩ := Prod.mk.inj heq
      exact ⟨hset _ _ _ _ hx, List.length_set ..⟩
  | hash k keyhash =>
      dsimp only at h
      split at h
      · obtain ⟨⟨x, s₂⟩, hx, heq⟩ := Option.map_eq_some_iff.mp h
        obtain ⟨rfl, rfl⟩ := Prod.mk.inj heq
        exact ⟨hset _ _ _ _ hx, rfl⟩
      · obtain ⟨rfl, rfl⟩ := Prod.mk.inj (Option.some.inj h)
        exact .refl _ _
      · cases h

theorem stepGrows_fillnocollidingStep (hset : Extends set) :
  StepGrows (fillnocollidingStep set)
  := by
  intro e tbl s tbl' s' h
  have hgrows := grows_fillnocollidingStep hset h
  exact ⟨(prefix_ishashkey tbl.array.length e.1 s).trans hgrows.strings, hgrows.length⟩

/-- The same of the second pass. -/
theorem grows_fillcollidingStep (hset : Extends set)
    (h : fillcollidingStep set tbl strings e = some (tbl', strings')) :
  Grows tbl (ishashkey tbl.array.length e.1 strings).2 tbl' strings'
  := by
  rw [fillcollidingStep] at h
  generalize ishashkey tbl.array.length e.1 strings = place at h
  obtain ⟨place, s₁⟩ := place
  cases place with
  | array j =>
      obtain ⟨rfl, rfl⟩ := Prod.mk.inj (Option.some.inj h)
      exact .refl _ _
  | hash k keyhash =>
      dsimp only at h
      split at h
      · split_ifs at h
        · obtain ⟨rfl, rfl⟩ := Prod.mk.inj (Option.some.inj h)
          exact .refl _ _
        · split at h
          · cases h
          · obtain ⟨⟨x, s₂⟩, hx, heq⟩ := Option.map_eq_some_iff.mp h
            obtain ⟨rfl, rfl⟩ := Prod.mk.inj heq
            exact ⟨hset _ _ _ _ hx, rfl⟩
      · cases h

theorem stepGrows_fillcollidingStep (hset : Extends set) :
  StepGrows (fillcollidingStep set)
  := by
  intro e tbl s tbl' s' h
  have hgrows := grows_fillcollidingStep hset h
  exact ⟨(prefix_ishashkey tbl.array.length e.1 s).trans hgrows.strings, hgrows.length⟩

theorem grows_fillarray {i turns : ℕ} (hset : Extends set)
    (h : fillarray set entries turns i tbl strings = some (tbl', strings')) :
  Grows tbl strings tbl' strings'
  := by
  induction turns generalizing i tbl strings with
  | zero =>
      obtain ⟨rfl, rfl⟩ := Prod.mk.inj (Option.some.inj h)
      exact .refl _ _
  | succ turns ih =>
      rw [fillarray] at h
      split at h
      · cases h
      · next tbl₁ s₁ hstep =>
          obtain ⟨⟨x, s₂⟩, hx, heq⟩ := Option.map_eq_some_iff.mp hstep
          obtain ⟨rfl, rfl⟩ := Prod.mk.inj heq
          have hfirst : Grows tbl strings { tbl with array := tbl.array.set (i - 1) x } s₂ :=
            ⟨hset _ _ _ _ hx, List.length_set ..⟩
          exact hfirst.trans (ih h)

/-- The array is as long as `lua_rawlen` says. -/
theorem grows_convert {t : Table} (hset : Extends set) (h : convert set t strings = some (tbl, strings')) :
  strings <+: strings' ∧ tbl.array.length = t.rawlen
  := by
  have hstart : ∀ {hash : List (Option (Node Val))} {tbl' : Conf Val} {s : Strings},
      Grows ⟨List.replicate t.rawlen .nil, hash⟩ strings tbl' s → strings <+: s ∧ tbl'.array.length = t.rawlen :=
    fun hgrows => ⟨hgrows.strings, hgrows.length.trans List.length_replicate⟩
  rw [convert] at h
  split at h
  · cases h
  · dsimp only at h
    split_ifs at h
    · exact hstart (grows_fillarray hset h)
    · split at h
      · cases h
      · next tbl₁ s₁ hfirst =>
          exact hstart ((grows_fill (stepGrows_fillnocollidingStep hset) hfirst).trans
            (grows_fill (stepGrows_fillcollidingStep hset) h))

end

end Sharedata

end Skynet
