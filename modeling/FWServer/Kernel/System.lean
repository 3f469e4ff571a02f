import FWServer.Kernel.Coroutine
import FWServer.Kernel.Machine
import Mathlib.Data.Nat.Notation
import Mathlib.Logic.Function.Basic

/-!
# Systems of services

A `System` has any number of processes and a network between them.  Its coroutines run in their
processes to their calls, as they do in a plant, but the network takes part in more: it carries what
they put out, it learns how they end, and a step of the network may start a coroutine, as the
arrival of a message does.  So the steps of `System.machine` are two: the network takes a step, and a
coroutine is resumed with the reply the network has for it.

The coroutines are numbered in the order they are started in.
-/

/-- How a coroutine has ended. -/
inductive Ending (I : Interface) (α : Type) where
  | returned (a : α)
  | raised (e : I.Error)

/-- Processes `ι` over the interface `I`, the jobs their coroutines are started for, and a network
with states `ω` and events `E`. -/
structure System (I : Interface) (ι ω J E α : Type) where
  /-- The process a job is started in. -/
  home : J → ι
  /-- The coroutine a job runs. -/
  code : J → Coroutine I α
  /-- Hands a query of a coroutine to the network. -/
  issue : ℕ → J → I.Query → ω → ω
  /-- Hands what a coroutine puts out to the network. -/
  send : J → I.Output → ω → ω
  /-- Tells the network how a coroutine has ended. -/
  finish : J → Ending I α → ω → ω
  /-- A step of the network, which may start a job. -/
  react : E → ω → Option (ω × Option J)
  /-- Takes the reply for a coroutine out of the network. -/
  collect : ℕ → ω → Option (I.Reply × ω)

namespace System

/-- A suspended coroutine: its job, the query it called with and what the reply resumes. -/
structure Suspended (I : Interface) (J α : Type) where
  job : J
  query : I.Query
  resumed : I.Reply → Coroutine I α

/-- The states of all processes and of the network, the jobs started, oldest first, and the suspended
coroutines. -/
structure State (I : Interface) (ι ω J α : Type) where
  process : ι → I.State
  network : ω
  started : List J
  waiting : ℕ → Option (Suspended I J α)

/-- The steps: the network takes a step, a coroutine is resumed. -/
inductive Step (E : Type) where
  | event (e : E)
  | wake (n : ℕ)

variable {I : Interface} {ι ω J E α : Type} [DecidableEq ι] (N : System I ι ω J E α)

/-- The network once the coroutine has handed it what it has put out. -/
def sendAll (j : J) (outputs : List I.Output) (w : ω) : ω :=
  outputs.foldl (fun w o => N.send j o w) w

/-- The state after the coroutine `c` of the job `j` has run, as number `n`, to its next call or its
end. -/
def run (n : ℕ) (j : J) (c : Coroutine I α) (s : State I ι ω J α) : State I ι ω J α :=
  let x := c.resume (s.process (N.home j))
  let w := N.sendAll j x.outputs s.network
  let process := Function.update s.process (N.home j) x.state
  match x.halt with
  | .returned a =>
      { s with
        process := process
        network := N.finish j (.returned a) w
        waiting := Function.update s.waiting n none }
  | .raised e =>
      { s with
        process := process
        network := N.finish j (.raised e) w
        waiting := Function.update s.waiting n none }
  | .waiting q k =>
      { s with
        process := process
        network := N.issue n j q w
        waiting := Function.update s.waiting n (some ⟨j, q, k⟩) }

/-- The step function. -/
def step (s : State I ι ω J α) : Step E → Option (State I ι ω J α)
  | .event e =>
      (N.react e s.network).map fun
        | (w, none) => { s with network := w }
        | (w, some j) =>
            N.run s.started.length j (N.code j)
              { s with network := w, started := s.started ++ [j] }
  | .wake n =>
      (s.waiting n).bind fun t =>
        (N.collect n s.network).map fun (r, w) =>
          N.run n t.job (t.resumed r) { s with network := w }

/-- The machine of all interleavings, from the initial states `init`. -/
def machine (init : State I ι ω J α → Prop) : Machine (State I ι ω J α) (Step E) where
  init := init
  step := N.step

/-! ### What a step does -/

/-- The network takes a step, or starts a job, or a coroutine is resumed. -/
theorem step_cases {s s' : State I ι ω J α} {l : Step E} (h : N.step s l = some s') :
  (∃ e w, l = .event e ∧ N.react e s.network = some (w, none) ∧ s' = { s with network := w }) ∨
  (∃ e w j, l = .event e ∧ N.react e s.network = some (w, some j) ∧
    s' = N.run s.started.length j (N.code j)
      { s with network := w, started := s.started ++ [j] }) ∨
  (∃ n t r w, l = .wake n ∧ s.waiting n = some t ∧ N.collect n s.network = some (r, w) ∧
    s' = N.run n t.job (t.resumed r) { s with network := w })
  := by
  cases l with
  | event e =>
      obtain ⟨⟨w, j⟩, hw, rfl⟩ := Option.map_eq_some_iff.mp h
      cases j with
      | none => exact .inl ⟨e, w, rfl, hw, rfl⟩
      | some j => exact .inr (.inl ⟨e, w, j, rfl, hw, rfl⟩)
  | wake n =>
      obtain ⟨t, ht, h⟩ := Option.bind_eq_some_iff.mp h
      obtain ⟨⟨r, w⟩, hr, rfl⟩ := Option.map_eq_some_iff.mp h
      exact .inr (.inr ⟨n, t, r, w, rfl, ht, hr, rfl⟩)

/-! ### What a stretch leaves behind -/

section Run

variable {n : ℕ} {j : J} {c : Coroutine I α} {s : State I ι ω J α} {out : List I.Output}
  {p : I.State}

theorem run_returned {a : α} (h : c.resume (s.process (N.home j)) = ⟨out, p, .returned a⟩) :
  N.run n j c s = { s with
    process := Function.update s.process (N.home j) p
    network := N.finish j (.returned a) (N.sendAll j out s.network)
    waiting := Function.update s.waiting n none }
  := by
  rw [run, h]

theorem run_raised {e : I.Error} (h : c.resume (s.process (N.home j)) = ⟨out, p, .raised e⟩) :
  N.run n j c s = { s with
    process := Function.update s.process (N.home j) p
    network := N.finish j (.raised e) (N.sendAll j out s.network)
    waiting := Function.update s.waiting n none }
  := by
  rw [run, h]

theorem run_waiting {q : I.Query} {k : I.Reply → Coroutine I α}
    (h : c.resume (s.process (N.home j)) = ⟨out, p, .waiting q k⟩) :
  N.run n j c s = { s with
    process := Function.update s.process (N.home j) p
    network := N.issue n j q (N.sendAll j out s.network)
    waiting := Function.update s.waiting n (some ⟨j, q, k⟩) }
  := by
  rw [run, h]

/-- What a coroutine puts out first goes to the network first. -/
theorem run_emit (o : I.Output) (c : Coroutine I α) :
  N.run n j (.emit o c) s = N.run n j c { s with network := N.send j o s.network }
  := by
  unfold run
  dsimp only [Coroutine.resume, sendAll, List.foldl_cons]

/-- It does not matter for the stretch whether the coroutine is still taken for suspended. -/
theorem run_clear :
  N.run n j c { s with waiting := Function.update s.waiting n none } = N.run n j c s
  := by
  simp only [run, Function.update_idem]

end Run

end System

/-! ### Calls and their answers -/

/-- What becomes of a call: it has been asked, and then answered. -/
inductive Slot (I : Interface) where
  | asked (q : I.Query)
  | answered (r : I.Reply)

/-- The calls of the coroutines, which call one after the other. -/
abbrev Slots (I : Interface) : Type :=
  ℕ → Option (Slot I)

namespace Slots

variable {I : Interface}

/-- A coroutine asks. -/
def ask (n : ℕ) (q : I.Query) (m : Slots I) : Slots I :=
  Function.update m n (some (.asked q))

/-- What a coroutine has asked and not been answered. -/
def asked (m : Slots I) (n : ℕ) : Option I.Query :=
  match m n with
  | some (.asked q) => some q
  | _ => none

/-- A coroutine is answered. -/
def answer (n : ℕ) (r : I.Reply) (m : Slots I) : Slots I :=
  Function.update m n (some (.answered r))

/-- Takes the answer of a coroutine out. -/
def collect (n : ℕ) (m : Slots I) : Option (I.Reply × Slots I) :=
  match m n with
  | some (.answered r) => some (r, Function.update m n none)
  | _ => none

theorem asked_eq_some {m : Slots I} {n : ℕ} {q : I.Query} :
  m.asked n = some q ↔ m n = some (.asked q)
  := by
  unfold asked
  split
  · next q' hq => rw [hq, Option.some.injEq, Option.some.injEq, Slot.asked.injEq]
  · next hno =>
      apply iff_of_false nofun
      intro hq
      exact hno q hq

theorem collect_eq_some {m m' : Slots I} {n : ℕ} {r : I.Reply} :
  m.collect n = some (r, m') ↔ m n = some (.answered r) ∧ m' = Function.update m n none
  := by
  unfold collect
  split
  · next r' hr =>
      rw [hr, Option.some.injEq, Prod.mk.injEq, Option.some.injEq, Slot.answered.injEq,
        eq_comm (a := m')]
  · next hno =>
      apply iff_of_false nofun
      rintro ⟨hr, -⟩
      exact hno r hr

end Slots

/-! ### Suspended coroutines and their calls -/

namespace System

variable {I : Interface} {J α : Type}

/-- The suspended coroutines have been started for their jobs and are of the form `form`, and what has
become of a call of a coroutine fits it. -/
structure Held (form : Suspended I J α → Prop) (fits : Suspended I J α → Slot I → Prop)
    (started : List J) (waiting : ℕ → Option (Suspended I J α)) (slots : Slots I) : Prop where
  started : ∀ n t, waiting n = some t → started[n]? = some t.job
  form : ∀ n t, waiting n = some t → form t
  fits : ∀ n x, slots n = some x → ∃ t, waiting n = some t ∧ fits t x

namespace Held

variable {form form' : Suspended I J α → Prop} {fits fits' : Suspended I J α → Slot I → Prop}
  {started : List J} {waiting : ℕ → Option (Suspended I J α)} {slots : Slots I} {n : ℕ}
  {t : Suspended I J α}

theorem mono (h : Held form fits started waiting slots) (hform : ∀ t, form t → form' t)
    (hfits : ∀ t x, fits t x → fits' t x) :
  Held form' fits' started waiting slots
  := by
  refine ⟨h.started, fun n t ht => hform t (h.form n t ht), fun n x hx => ?_⟩
  obtain ⟨t, ht, htx⟩ := h.fits n x hx
  exact ⟨t, ht, hfits t x htx⟩

theorem lt_length (h : Held form fits started waiting slots) (ht : waiting n = some t) :
  n < started.length
  := by
  apply Nat.lt_of_not_le
  intro hle
  cases (List.getElem?_eq_none hle).symm.trans (h.started n t ht)

/-- A coroutine that has not been started is not suspended. -/
theorem fresh (h : Held form fits started waiting slots) (hn : started.length ≤ n) :
  waiting n = none
  := by
  cases hwaiting : waiting n with
  | none => rfl
  | some t => exact absurd (h.lt_length hwaiting) (Nat.not_lt.mpr hn)

/-- A job is started. -/
theorem start (h : Held form fits started waiting slots) (j : J) :
  Held form fits (started ++ [j]) waiting slots
  := by
  refine ⟨fun n t ht => ?_, h.form, h.fits⟩
  rw [List.getElem?_append_left (h.lt_length ht)]
  exact h.started n t ht

/-- A coroutine calls. -/
theorem call (h : Held form fits started waiting slots) (hj : started[n]? = some t.job)
    (hform : form t) (hfits : fits t (.asked t.query)) :
  Held form fits started (Function.update waiting n (some t)) (slots.ask n t.query)
  := by
  constructor
  · intro m t' ht'
    rcases eq_or_ne m n with rfl | hne
    · rw [Function.update_self] at ht'
      obtain rfl := Option.some.inj ht'
      exact hj
    · rw [Function.update_of_ne hne] at ht'
      exact h.started m t' ht'
  · intro m t' ht'
    rcases eq_or_ne m n with rfl | hne
    · rw [Function.update_self] at ht'
      obtain rfl := Option.some.inj ht'
      exact hform
    · rw [Function.update_of_ne hne] at ht'
      exact h.form m t' ht'
  · intro m x hx
    unfold Slots.ask at hx
    rcases eq_or_ne m n with rfl | hne
    · rw [Function.update_self] at hx ⊢
      obtain rfl := Option.some.inj hx
      exact ⟨t, rfl, hfits⟩
    · rw [Function.update_of_ne hne] at hx ⊢
      exact h.fits m x hx

/-- A coroutine takes its answer. -/
theorem take (h : Held form fits started waiting slots) (n : ℕ) :
  Held form fits started waiting (Function.update slots n none)
  := by
  refine ⟨h.started, h.form, fun m x hx => ?_⟩
  rcases eq_or_ne m n with rfl | hne
  · rw [Function.update_self] at hx
    cases hx
  · rw [Function.update_of_ne hne] at hx
    exact h.fits m x hx

/-- A coroutine takes its answer and ends. -/
theorem release (h : Held form fits started waiting slots) (n : ℕ) :
  Held form fits started (Function.update waiting n none) (Function.update slots n none)
  := by
  have hwaiting : ∀ m t, Function.update waiting n none m = some t → waiting m = some t := by
    intro m t ht
    rcases eq_or_ne m n with rfl | hne
    · rw [Function.update_self] at ht
      cases ht
    · rw [Function.update_of_ne hne] at ht
      exact ht
  refine ⟨fun m t ht => h.started m t (hwaiting m t ht), fun m t ht => h.form m t (hwaiting m t ht),
    fun m x hx => ?_⟩
  rcases eq_or_ne m n with rfl | hne
  · rw [Function.update_self] at hx
    cases hx
  · rw [Function.update_of_ne hne] at hx ⊢
    exact h.fits m x hx

/-- A coroutine is answered. -/
theorem answer (h : Held form fits started waiting slots) {r : I.Reply} (ht : waiting n = some t)
    (hfits : fits t (.answered r)) :
  Held form fits started waiting (slots.answer n r)
  := by
  refine ⟨h.started, h.form, fun m x hx => ?_⟩
  unfold Slots.answer at hx
  rcases eq_or_ne m n with rfl | hne
  · rw [Function.update_self] at hx
    obtain rfl := Option.some.inj hx
    exact ⟨t, ht, hfits⟩
  · rw [Function.update_of_ne hne] at hx
    exact h.fits m x hx

end Held

end System
