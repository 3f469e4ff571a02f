import FWServer.Kernel.Coroutine
import FWServer.Kernel.Machine
import Mathlib.Data.Nat.Notation
import Mathlib.Logic.Function.Basic

/-!
# Coroutines running side by side

A `Plant` has any number of processes and a network they send their calls to.  A job is
started as a coroutine of its home process; the coroutine runs to its first call, whose query
is issued to the network, and every reply the network has ready resumes the coroutine waiting
for it.  In between, the network takes steps of its own.  The steps of the machine
`Plant.machine` are these three, in any order, so its runs are all interleavings at the calls.
-/

/-- Processes `ι` over the interface `I`, the jobs their coroutines are started for, and a
network with states `ω` and events `E`. -/
structure Plant (I : Interface) (ι ω J E α : Type) where
  /-- The process a job is started in. -/
  home : J → ι
  /-- The coroutine a job runs. -/
  code : J → Coroutine I α
  /-- Hands a query of a coroutine to the network. -/
  issue : ℕ → I.Query → ω → ω
  /-- A step of the network. -/
  react : E → ω → Option ω
  /-- Takes the reply for a coroutine out of the network. -/
  collect : ℕ → ω → Option (I.Reply × ω)

/-- A suspended coroutine: its job, the query it called with and what the reply resumes. -/
structure Waiting (I : Interface) (J α : Type) where
  job : J
  query : I.Query
  resumed : I.Reply → Coroutine I α

/-- How a job ended. -/
inductive Outcome (I : Interface) (α : Type) where
  | returned (a : α)
  | raised (e : I.Error)

/-- The states of all processes and of the network, the suspended coroutines, and what the
jobs have put out and ended with, newest first. -/
structure Plant.State (I : Interface) (ι ω J α : Type) where
  process : ι → I.State
  network : ω
  waiting : ℕ → Option (Waiting I J α)
  fresh : ℕ
  outputs : List (J × I.Output)
  ended : List (J × Outcome I α)

/-- The steps: a job is started, the network takes a step, a coroutine is resumed. -/
inductive Plant.Step (J E : Type) where
  | start (j : J)
  | event (e : E)
  | wake (n : ℕ)

namespace Plant

variable {I : Interface} {ι ω J E α : Type} [DecidableEq ι] (N : Plant I ι ω J E α)

/-- The state after a stretch of the coroutine `n` of the job `j`. -/
def settle (n : ℕ) (j : J) (x : Coroutine.Stretch I α) (s : State I ι ω J α) :
    State I ι ω J α :=
  let s : State I ι ω J α :=
    { s with
      process := Function.update s.process (N.home j) x.state
      outputs := (x.outputs.map fun o => (j, o)).reverse ++ s.outputs }
  match x.halt with
  | .returned a =>
      { s with
        waiting := Function.update s.waiting n none
        ended := (j, .returned a) :: s.ended }
  | .raised e =>
      { s with
        waiting := Function.update s.waiting n none
        ended := (j, .raised e) :: s.ended }
  | .waiting q k =>
      { s with
        waiting := Function.update s.waiting n (some ⟨j, q, k⟩)
        network := N.issue n q s.network }

/-- The state after the coroutine `c` of the job `j` has run, as number `n`, to its next call
or its end. -/
def run (n : ℕ) (j : J) (c : Coroutine I α) (s : State I ι ω J α) : State I ι ω J α :=
  N.settle n j (c.resume (s.process (N.home j))) s

/-- The step function. -/
def step (s : State I ι ω J α) : Step J E → Option (State I ι ω J α)
  | .start j => some (N.run s.fresh j (N.code j) { s with fresh := s.fresh + 1 })
  | .event e => (N.react e s.network).map fun w => { s with network := w }
  | .wake n =>
      (s.waiting n).bind fun t =>
        (N.collect n s.network).map fun (r, w) =>
          N.run n t.job (t.resumed r) { s with network := w }

/-- The machine of all interleavings, from the initial states `init`. -/
def machine (init : State I ι ω J α → Prop) : Machine (State I ι ω J α) (Step J E) where
  init := init
  step := N.step

/-! ### What a step does -/

/-- A step starts a job, is a step of the network or resumes a coroutine. -/
theorem step_cases {s s' : State I ι ω J α} {a : Step J E} (h : N.step s a = some s') :
  (∃ j, a = .start j ∧ s' = N.run s.fresh j (N.code j) { s with fresh := s.fresh + 1 }) ∨
  (∃ e w, a = .event e ∧ N.react e s.network = some w ∧ s' = { s with network := w }) ∨
  (∃ n t r w, a = .wake n ∧ s.waiting n = some t ∧ N.collect n s.network = some (r, w) ∧
    s' = N.run n t.job (t.resumed r) { s with network := w })
  := by
  cases a with
  | start j =>
      exact .inl ⟨j, rfl, (Option.some.inj h).symm⟩
  | event e =>
      obtain ⟨w, hw, hs⟩ := Option.map_eq_some_iff.mp h
      exact .inr (.inl ⟨e, w, rfl, hw, hs.symm⟩)
  | wake n =>
      obtain ⟨t, ht, h⟩ := Option.bind_eq_some_iff.mp h
      obtain ⟨⟨r, w⟩, hr, hs⟩ := Option.map_eq_some_iff.mp h
      exact .inr (.inr ⟨n, t, r, w, rfl, ht, hr, hs.symm⟩)

/-! ### What a stretch leaves behind -/

section Run

variable (n : ℕ) (j : J) (c : Coroutine I α) (s : State I ι ω J α)

/-- The stretch ends the job or suspends it again. -/
theorem run_cases :
  let x := c.resume (s.process (N.home j))
  let s₁ : State I ι ω J α := { s with
    process := Function.update s.process (N.home j) x.state
    outputs := (x.outputs.map fun o => (j, o)).reverse ++ s.outputs }
  (∃ a, x.halt = .returned a ∧ N.run n j c s = { s₁ with
    waiting := Function.update s.waiting n none
    ended := (j, .returned a) :: s.ended }) ∨
  (∃ e, x.halt = .raised e ∧ N.run n j c s = { s₁ with
    waiting := Function.update s.waiting n none
    ended := (j, .raised e) :: s.ended }) ∨
  (∃ q k, x.halt = .waiting q k ∧ N.run n j c s = { s₁ with
    waiting := Function.update s.waiting n (some ⟨j, q, k⟩)
    network := N.issue n q s.network })
  := by
  intro x s₁
  have hrun : N.run n j c s = N.settle n j x s := rfl
  rw [hrun, settle]
  cases hhalt : x.halt with
  | returned a => exact .inl ⟨a, rfl, rfl⟩
  | raised e => exact .inr (.inl ⟨e, rfl, rfl⟩)
  | waiting q k => exact .inr (.inr ⟨q, k, rfl, rfl⟩)

/-- After a stretch that ends the job the coroutine does not wait any more. -/
theorem run_ended (h : ∀ q k, (c.resume (s.process (N.home j))).halt ≠ .waiting q k) :
  (N.run n j c s).waiting = Function.update s.waiting n none ∧
    (N.run n j c s).network = s.network
  := by
  obtain ⟨a, -, hrun⟩ | ⟨e, -, hrun⟩ | ⟨q, k, hhalt, -⟩ := N.run_cases n j c s
  · rw [hrun]
    exact ⟨rfl, rfl⟩
  · rw [hrun]
    exact ⟨rfl, rfl⟩
  · exact absurd hhalt (h q k)

/-- After a stretch that ends at a call the coroutine waits, and its query has been issued. -/
theorem run_suspended {q : I.Query} {k : I.Reply → Coroutine I α}
    (h : (c.resume (s.process (N.home j))).halt = .waiting q k) :
  (N.run n j c s).waiting = Function.update s.waiting n (some ⟨j, q, k⟩) ∧
    (N.run n j c s).network = N.issue n q s.network
  := by
  obtain ⟨a, hhalt, -⟩ | ⟨e, hhalt, -⟩ | ⟨q', k', hhalt, hrun⟩ := N.run_cases n j c s
  · cases h.symm.trans hhalt
  · cases h.symm.trans hhalt
  · cases h.symm.trans hhalt
    rw [hrun]
    exact ⟨rfl, rfl⟩

/-- It does not matter for the stretch whether the coroutine is still taken for suspended. -/
theorem run_clear :
  N.run n j c { s with waiting := Function.update s.waiting n none } = N.run n j c s
  := by
  rw [run, run, settle, settle]
  simp only [Function.update_idem]

@[simp]
theorem run_process :
  (N.run n j c s).process
    = Function.update s.process (N.home j) (c.resume (s.process (N.home j))).state
  := by
  unfold run settle
  split <;> rfl

@[simp]
theorem run_fresh :
  (N.run n j c s).fresh = s.fresh
  := by
  unfold run settle
  split <;> rfl

theorem run_waiting_of_ne {m : ℕ} (h : m ≠ n) :
  (N.run n j c s).waiting m = s.waiting m
  := by
  unfold run settle
  split <;> exact Function.update_of_ne h _ _

theorem run_waiting_self {t : Waiting I J α} (h : (N.run n j c s).waiting n = some t) :
  t.job = j ∧ (c.resume (s.process (N.home j))).halt = .waiting t.query t.resumed
  := by
  unfold run settle at h
  split at h
  · simp at h
  · simp at h
  · next q k hk =>
      simp only [Function.update_self, Option.some.injEq] at h
      subst h
      exact ⟨rfl, hk⟩

end Run

/-! ### Invariants of the processes -/

/-- A coroutine is resumed only with a reply that the assumption `A` allows in the state of its
process. -/
def Assumed (A : I.Query → I.Reply → I.State → Prop) (s : State I ι ω J α) :
    Step J E → Prop
  | .wake n => ∀ t r w, s.waiting n = some t → N.collect n s.network = some (r, w) →
      A t.query r (s.process (N.home t.job))
  | _ => True

/-- All processes satisfy `P`, and every suspended coroutine keeps to it when resumed. -/
structure Keeping (A : I.Query → I.Reply → I.State → Prop) (P : I.State → Prop)
    (s : State I ι ω J α) : Prop where
  process : ∀ i, P (s.process i)
  waiting : ∀ n t, s.waiting n = some t → ∀ r s', P s' → A t.query r s' →
    (t.resumed r).Ensures A P (fun _ => P) s'

section Keeping

variable {A : I.Query → I.Reply → I.State → Prop} {P : I.State → Prop}

theorem Keeping.run {s : State I ι ω J α} (h : Keeping A P s) (n : ℕ) (j : J)
    {c : Coroutine I α} (hc : c.Ensures A P (fun _ => P) (s.process (N.home j))) :
  Keeping A P (N.run n j c s)
  := by
  rw [Coroutine.ensures_iff_resume] at hc
  dsimp only at hc
  constructor
  · intro i
    rw [run_process]
    rcases eq_or_ne i (N.home j) with rfl | hi
    · rw [Function.update_self]
      split at hc
      · exact hc
      · exact hc
      · exact hc.1
    · rw [Function.update_of_ne hi]
      exact h.process i
  · intro m t ht
    rcases eq_or_ne m n with rfl | hm
    · obtain ⟨-, hhalt⟩ := N.run_waiting_self m j c s ht
      rw [hhalt] at hc
      exact hc.2
    · rw [run_waiting_of_ne _ _ _ _ _ hm] at ht
      exact h.waiting m t ht

/-- If all jobs keep `P` at their calls and at their ends, all processes satisfy `P` in every
state reached while the replies are as assumed, whatever the network does. -/
theorem processes_satisfy {init : State I ι ω J α → Prop}
    (hinit : ∀ s, init s → (∀ i, P (s.process i)) ∧ ∀ n, s.waiting n = none)
    (hcode : ∀ j s, P s → (N.code j).Ensures A P (fun _ => P) s) {s : State I ι ω J α}
    (h : (N.machine init).Reaches (N.Assumed A) s) (i : ι) :
  P (s.process i)
  := by
  have hkeeping : Keeping A P s := by
    apply Machine.invariant _ _ h
    · intro s hs
      obtain ⟨hprocess, hwaiting⟩ := hinit s hs
      constructor
      · exact hprocess
      · intro n t ht
        rw [hwaiting] at ht
        cases ht
    · intro s a s' hs hok hstep
      obtain ⟨j, rfl, rfl⟩ | ⟨e, w, rfl, -, rfl⟩ | ⟨n, t, r, w, rfl, ht, hr, rfl⟩ :=
        N.step_cases hstep
      · have hs' : Keeping A P { s with fresh := s.fresh + 1 } := ⟨hs.process, hs.waiting⟩
        exact hs'.run N _ j (hcode j _ (hs.process _))
      · exact ⟨hs.process, hs.waiting⟩
      · have hs' : Keeping A P { s with network := w } := ⟨hs.process, hs.waiting⟩
        exact hs'.run N n t.job (hs.waiting n t ht r _ (hs.process _) (hok t r w ht hr))
  exact hkeeping.process i

end Keeping

end Plant
