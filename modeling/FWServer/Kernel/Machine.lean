import Mathlib.Logic.Relation

/-!
# Labelled machines

A `Machine` has states, labels and a partial step: a label may be taken in some states and
leads to one state.  What is left to the environment, the order of events above all, is in
the sequence of labels.

A *guard* is a condition on a state and the label about to be taken in it.  `Reaches ok`
are the states reached by runs whose steps all meet the guard `ok`, and `invariant` is the
induction over them.  A guard is *exact* for a property of states when a step from a state
with the property keeps it precisely when the guard allows the step; then a whole run stays
within the property precisely when all its steps meet the guard.
-/

universe u v

/-- States `σ` and labels `Λ`: the initial states, and the state a label leads to. -/
structure Machine (σ : Type u) (Λ : Type v) where
  init : σ → Prop
  step : σ → Λ → Option σ

namespace Machine

variable {σ : Type u} {Λ : Type v} (M : Machine σ Λ)

/-- The state a sequence of labels leads to from `s`. -/
def exec (s : σ) : List Λ → Option σ
  | [] => some s
  | l :: ls => (M.step s l).bind fun s' => exec s' ls

/-- The states reached from an initial one by steps that all meet the guard `ok`. -/
inductive Reaches (ok : σ → Λ → Prop) : σ → Prop
  | init {s : σ} : M.init s → Reaches ok s
  | step {s s' : σ} {l : Λ} : Reaches ok s → ok s l → M.step s l = some s' → Reaches ok s'

/-- The states reached from an initial one by any steps. -/
def Reachable : σ → Prop :=
  M.Reaches fun _ _ => True

/-! ### Invariants -/

variable {M}

/-- A property of the initial states kept by every guarded step holds of the states reached
by guarded steps. -/
theorem invariant {ok : σ → Λ → Prop} {P : σ → Prop} (hinit : ∀ s, M.init s → P s)
    (hstep : ∀ s l s', P s → ok s l → M.step s l = some s' → P s') {s : σ}
    (h : M.Reaches ok s) :
  P s
  := by
  induction h with
  | init hs => exact hinit _ hs
  | step _ hok hst ih => exact hstep _ _ _ ih hok hst

/-- The labels `ls` lead from an initial state to `s` by steps that all meet the guard `ok`. -/
inductive Run (ok : σ → Λ → Prop) : List Λ → σ → Prop
  | init {s : σ} : M.init s → Run ok [] s
  | step {ls : List Λ} {s s' : σ} {l : Λ} : Run ok ls s → ok s l → M.step s l = some s' →
      Run ok (ls ++ [l]) s'

theorem Run.reaches {ok : σ → Λ → Prop} {ls : List Λ} {s : σ} (h : M.Run ok ls s) :
  M.Reaches ok s
  := by
  induction h with
  | init hs => exact .init hs
  | step _ hok hst ih => exact .step ih hok hst

/-! ### Exact guards -/

variable (M)

/-- `P` holds in every state visited by the labels taken from `s`. -/
def Always (P : σ → Prop) (s : σ) : List Λ → Prop
  | [] => P s
  | l :: ls => P s ∧ ∀ s', M.step s l = some s' → Always P s' ls

/-- Every label taken from `s` meets the guard `ok` in the state it is taken in. -/
def Guarded (ok : σ → Λ → Prop) (s : σ) : List Λ → Prop
  | [] => True
  | l :: ls => ∀ s', M.step s l = some s' → ok s l ∧ Guarded ok s' ls

variable {M}

/-- A run whose steps all meet the guard leads to a state reached under it. -/
theorem Reaches.exec {ok : σ → Λ → Prop} {s s' : σ} (ls : List Λ) (hs : M.Reaches ok s)
    (hg : M.Guarded ok s ls) (h : M.exec s ls = some s') :
  M.Reaches ok s'
  := by
  induction ls generalizing s with
  | nil =>
      obtain rfl := Option.some.inj h
      exact hs
  | cons l ls ih =>
      obtain ⟨t, ht, hrest⟩ := Option.bind_eq_some_iff.mp h
      obtain ⟨hok, hg⟩ := hg t ht
      exact ih (.step hs hok ht) hg hrest

theorem guarded_of_forall {ok : σ → Λ → Prop} (hok : ∀ s l, ok s l) (s : σ) (ls : List Λ) :
  M.Guarded ok s ls
  := by
  induction ls generalizing s with
  | nil => trivial
  | cons l ls ih => exact fun s' _ => ⟨hok s l, ih s'⟩

/-- A run from a reachable state leads to a reachable state. -/
theorem Reachable.exec {s s' : σ} (ls : List Λ) (hs : M.Reachable s) (h : M.exec s ls = some s') :
  M.Reachable s'
  := Reaches.exec ls hs (guarded_of_forall (fun _ _ => trivial) s ls) h

theorem exec_cons {s s' : σ} {l : Λ} (h : M.step s l = some s') (ls : List Λ) :
  M.exec s (l :: ls) = M.exec s' ls
  := by rw [exec, h, Option.bind_some]

theorem exec_append {s s' : σ} {ls : List Λ} (h : M.exec s ls = some s') (ls' : List Λ) :
  M.exec s (ls ++ ls') = M.exec s' ls'
  := by
  induction ls generalizing s with
  | nil =>
      obtain rfl := Option.some.inj h
      rfl
  | cons l ls ih =>
      obtain ⟨t, ht, hrest⟩ := Option.bind_eq_some_iff.mp h
      rw [List.cons_append, exec_cons ht]
      exact ih hrest

theorem Guarded.cons {ok : σ → Λ → Prop} {s s' : σ} {l : Λ} {ls : List Λ}
    (h : M.step s l = some s') (hok : ok s l) (hg : M.Guarded ok s' ls) :
  M.Guarded ok s (l :: ls)
  := by
  intro t ht
  obtain rfl := Option.some.inj (h.symm.trans ht)
  exact ⟨hok, hg⟩

theorem Guarded.and {ok ok' : σ → Λ → Prop} {s : σ} {ls : List Λ} (h : M.Guarded ok s ls) (h' : M.Guarded ok' s ls) :
  M.Guarded (fun s l => ok s l ∧ ok' s l) s ls
  := by
  induction ls generalizing s with
  | nil => trivial
  | cons l ls ih =>
      intro s' hst
      obtain ⟨hok, hg⟩ := h s' hst
      obtain ⟨hok', hg'⟩ := h' s' hst
      exact ⟨⟨hok, hok'⟩, ih hg hg'⟩

variable (M) in
/-- Whether the labels taken from `s` pass a test in the states they are taken in. -/
def passes (test : σ → Λ → Bool) (s : σ) : List Λ → Bool
  | [] => true
  | l :: ls => test s l && (M.step s l).all fun s' => passes test s' ls

/-- Labels that pass a test meet the guard that it implies. -/
theorem guarded_of_passes {ok : σ → Λ → Prop} (test : σ → Λ → Bool) (hok : ∀ s l, test s l = true → ok s l) {s : σ}
    {ls : List Λ} (h : M.passes test s ls = true) :
  M.Guarded ok s ls
  := by
  induction ls generalizing s with
  | nil => trivial
  | cons l ls ih =>
      intro s' hst
      obtain ⟨hl, hls⟩ := Bool.and_eq_true_iff.mp h
      rw [hst, Option.all_some] at hls
      exact ⟨hok s l hl, ih hls⟩

theorem Always.here {P : σ → Prop} {s : σ} {ls : List Λ} (h : M.Always P s ls) :
  P s
  := by
  cases ls with
  | nil => exact h
  | cons l ls => exact h.1

theorem Always.mono {P Q : σ → Prop} (hle : ∀ s, P s → Q s) {s : σ} {ls : List Λ}
    (h : M.Always P s ls) :
  M.Always Q s ls
  := by
  induction ls generalizing s with
  | nil => exact hle s h
  | cons l ls ih => exact ⟨hle s h.1, fun s' hst => ih (h.2 s' hst)⟩

/-- A property that every step into a state of `Q` keeps holds along a run within `Q`. -/
theorem Always.strengthen {P Q : σ → Prop}
    (hstep : ∀ s l s', P s → M.step s l = some s' → Q s' → P s') {s : σ} {ls : List Λ} (hs : P s)
    (h : M.Always Q s ls) :
  M.Always P s ls
  := by
  induction ls generalizing s with
  | nil => exact hs
  | cons l ls ih =>
      refine ⟨hs, fun s' hst => ?_⟩
      have hrest := h.2 s' hst
      exact ih (hstep s l s' hs hst hrest.here) hrest

/-- A property kept by every step holds along every run. -/
theorem always_of_invariant {P : σ → Prop}
    (hstep : ∀ s l s', P s → M.step s l = some s' → P s') {s : σ} (hs : P s) (ls : List Λ) :
  M.Always P s ls
  := by
  induction ls generalizing s with
  | nil => exact hs
  | cons l ls ih => exact ⟨hs, fun s' hst => ih (hstep s l s' hs hst)⟩

/-- Under an exact guard, a run from a state of `P` stays within `P` precisely when all its
steps meet the guard. -/
theorem always_iff_guarded {ok : σ → Λ → Prop} {P : σ → Prop}
    (hexact : ∀ s l s', P s → M.step s l = some s' → (P s' ↔ ok s l)) {s : σ} (hs : P s)
    (ls : List Λ) :
  M.Always P s ls ↔ M.Guarded ok s ls
  := by
  induction ls generalizing s with
  | nil => exact iff_of_true hs trivial
  | cons l ls ih =>
      constructor
      · rintro ⟨-, hrest⟩ s' hst
        have hs' : P s' := (hrest s' hst).here
        exact ⟨(hexact s l s' hs hst).mp hs', (ih hs').mp (hrest s' hst)⟩
      · intro hg
        refine ⟨hs, fun s' hst => ?_⟩
        obtain ⟨hok, hrest⟩ := hg s' hst
        exact (ih ((hexact s l s' hs hst).mpr hok)).mpr hrest

end Machine
