import FWServer.Kernel.Machine
import Mathlib.Algebra.BigOperators.Group.Multiset.Basic
import Mathlib.Data.Multiset.Bind

/-!
# Threads that run programs

`Programs` are run by any number of threads over a state that they share.  A thread is the list of the
instructions it has yet to execute; executing the first changes the shared state and puts other instructions in
its place.  The steps of `Programs.machine` are these two, in any order: a thread is started with an instruction,
and a thread executes its next one.

Which thread has to execute an instruction does not matter to an invariant: it is one of the shared state and of
all the instructions yet to be executed, `State.todo`.  What these own of something is added up by `owned`.
-/

/-- Instructions `ι` over a shared state `σ`; the outside has a part in what they do, by the choices `ρ`. -/
structure Programs (σ ι ρ : Type) where
  /-- Whether a thread may be started with the instruction. -/
  starts : ι → Bool
  /-- Executes an instruction: the shared state, and the instructions that are to be executed next. -/
  execute : σ → ρ → ι → Option (σ × List ι)

namespace Programs

/-- The shared state and the threads. -/
structure State (σ ι : Type) where
  shared : σ
  threads : List (List ι)

/-- The steps: a thread is started, a thread executes its next instruction. -/
inductive Step (ι ρ : Type) where
  | start (i : ι)
  | run (n : ℕ) (r : ρ)

variable {σ ι ρ : Type}

/-- All the instructions yet to be executed. -/
def State.todo (s : State σ ι) : Multiset ι :=
  s.threads.flatten

/-- The next instruction of a thread. -/
def State.next (s : State σ ι) (n : ℕ) : Option ι :=
  s.threads[n]?.bind List.head?

/-- The step function. -/
def step (P : Programs σ ι ρ) (s : State σ ι) : Step ι ρ → Option (State σ ι)
  | .start i => if P.starts i then some { s with threads := s.threads ++ [[i]] } else none
  | .run n r =>
      match s.threads[n]? with
      | some (i :: is) =>
          (P.execute s.shared r i).map fun x => ⟨x.1, s.threads.set n (x.2 ++ is)⟩
      | _ => none

/-- The machine of all interleavings, from a shared state in `init` and no threads. -/
def machine (P : Programs σ ι ρ) (init : σ → Prop) : Machine (State σ ι) (Step ι ρ) where
  init s := init s.shared ∧ s.threads = []
  step := P.step

/-- The guard on instructions as one on steps. -/
def Allows (ok : σ → ι → Prop) (s : State σ ι) : Step ι ρ → Prop
  | .start _ => True
  | .run n _ => ∀ i, s.next n = some i → ok s.shared i

variable {P : Programs σ ι ρ} {s s' : State σ ι}

/-- Executing an instruction replaces it among those yet to be executed. -/
theorem flatten_set {threads : List (List ι)} {n : ℕ} {i : ι} {is : List ι} (h : threads[n]? = some (i :: is))
    (js : List ι) :
  ∃ rest : Multiset ι, (threads.flatten : Multiset ι) = i ::ₘ rest ∧
    ((threads.set n (js ++ is)).flatten : Multiset ι) = ↑js + rest
  := by
  induction threads generalizing n with
  | nil => cases h
  | cons t threads ih =>
      cases n with
      | zero =>
          obtain rfl := Option.some.inj h
          use ↑(is ++ threads.flatten), rfl
          rw [List.set_cons_zero, List.flatten_cons, List.append_assoc, Multiset.coe_add]
      | succ n =>
          obtain ⟨rest, hbefore, hafter⟩ := ih h
          use ↑t + rest
          rw [List.set_cons_succ, List.flatten_cons, List.flatten_cons, ← Multiset.coe_add,
            ← Multiset.coe_add, hbefore, hafter, Multiset.add_cons]
          use rfl
          apply add_left_comm

/-- The next instruction of a thread, and those of the others, are yet to be executed. -/
theorem todo_eq_cons {n : ℕ} {i : ι} (h : s.next n = some i) :
  ∃ rest, s.todo = i ::ₘ rest ∧ ∀ m j, m ≠ n → s.next m = some j → j ∈ rest
  := by
  obtain ⟨w, threads⟩ := s
  simp only [State.next, State.todo] at h ⊢
  induction threads generalizing n with
  | nil => cases h
  | cons t threads ih =>
      have hmem (m : ℕ) (j : ι) (hj : threads[m]?.bind List.head? = some j) : j ∈ threads.flatten := by
        obtain ⟨t', ht', hhead⟩ := Option.bind_eq_some_iff.mp hj
        apply List.mem_flatten_of_mem (List.mem_of_getElem? ht') (List.mem_of_head? hhead)
      rw [List.flatten_cons, ← Multiset.coe_add]
      cases n with
      | zero =>
          obtain ⟨is, rfl⟩ : ∃ is, t = i :: is := by
            cases t with
            | nil => cases h
            | cons j is => exact ⟨is, by rw [Option.some.inj h]⟩
          use ↑is + ↑threads.flatten, rfl
          intro m j hne hj
          cases m with
          | zero => exact absurd rfl hne
          | succ m => exact Multiset.mem_add.mpr (.inr (hmem m j hj))
      | succ n =>
          obtain ⟨rest, hrest, hothers⟩ := ih h
          use ↑t + rest
          rw [hrest, Multiset.add_cons]
          use rfl
          intro m j hne hj
          cases m with
          | zero => exact Multiset.mem_add.mpr (.inl (List.mem_of_head? hj))
          | succ m => exact Multiset.mem_add.mpr (.inr (hothers m j (fun h => hne (congrArg _ h)) hj))

/-- A step starts a thread or executes an instruction. -/
theorem step_cases {l : Step ι ρ} (h : P.step s l = some s') :
  (∃ i, l = .start i ∧ P.starts i = true ∧ s'.shared = s.shared ∧ s'.todo = i ::ₘ s.todo) ∨
  ∃ n r i js rest, l = .run n r ∧ s.next n = some i ∧ P.execute s.shared r i = some (s'.shared, js) ∧
    s.todo = i ::ₘ rest ∧ s'.todo = ↑js + rest
  := by
  cases l with
  | start i =>
      rw [step] at h
      split at h
      · next hstarts =>
          obtain rfl := Option.some.inj h
          refine .inl ⟨i, rfl, hstarts, rfl, ?_⟩
          rw [State.todo, List.flatten_append, ← Multiset.coe_add, add_comm]
          rfl
      · cases h
  | run n r =>
      rw [step] at h
      split at h
      · next i is hthread =>
          obtain ⟨⟨shared, js⟩, hexecute, rfl⟩ := Option.map_eq_some_iff.mp h
          obtain ⟨rest, hbefore, hafter⟩ := flatten_set hthread js
          refine .inr ⟨n, r, i, js, rest, rfl, ?_, hexecute, hbefore, hafter⟩
          rw [State.next, hthread]
          rfl
      · cases h

/-- What holds of the shared state and no instructions, and is kept when an instruction is added and when one is
executed, holds of all states that are reached. -/
theorem invariant {init : σ → Prop} {ok : σ → ι → Prop} (Inv : σ → Multiset ι → Prop)
    (hinit : ∀ w, init w → Inv w 0)
    (hstart : ∀ w todo i, Inv w todo → P.starts i = true → Inv w (i ::ₘ todo))
    (hexecute : ∀ w w' r i js rest, Inv w (i ::ₘ rest) → ok w i → P.execute w r i = some (w', js) →
      Inv w' (↑js + rest))
    (h : (P.machine init).Reaches (Allows ok) s) :
  Inv s.shared s.todo
  := by
  apply Machine.invariant (P := fun s => Inv s.shared s.todo) _ _ h
  · rintro s ⟨hs, hthreads⟩
    rw [State.todo, hthreads]
    exact hinit s.shared hs
  · intro s l s' hs hok hstep
    obtain ⟨i, rfl, hstarts, hshared, htodo⟩ | ⟨n, r, i, js, rest, rfl, hnext, hexec, htodo, htodo'⟩ :=
      step_cases hstep
    · rw [hshared, htodo]
      exact hstart _ _ _ hs hstarts
    · rw [htodo] at hs
      rw [htodo']
      exact hexecute _ _ r i js rest hs (hok i hnext) hexec

/-- An invariant of the instructions themselves holds of all states that are reachable. -/
theorem invariant_of_reachable {init : σ → Prop} (Inv : σ → Multiset ι → Prop)
    (hinit : ∀ w, init w → Inv w 0)
    (hstart : ∀ w todo i, Inv w todo → P.starts i = true → Inv w (i ::ₘ todo))
    (hexecute : ∀ w w' r i js rest, Inv w (i ::ₘ rest) → P.execute w r i = some (w', js) → Inv w' (↑js + rest))
    (h : (P.machine init).Reachable s) :
  Inv s.shared s.todo
  := by
  have hallowed : (P.machine init).Reaches (Allows fun _ _ => True) s := by
    induction h with
    | init hs => exact .init hs
    | @step s s' l _ _ hstep ih =>
        apply Machine.Reaches.step ih _ hstep
        cases l with
        | start i => trivial
        | run n r => exact fun _ _ => trivial
  apply invariant Inv hinit hstart _ hallowed
  exact fun w w' r i js rest hinv _ => hexecute w w' r i js rest hinv

/-! ### Runs -/

/-- A thread executes its next instruction. -/
theorem step_run {w w' : σ} {threads : List (List ι)} {n : ℕ} {r : ρ} {i : ι} {is js : List ι}
    (h : threads[n]? = some (i :: is)) (hexecute : P.execute w r i = some (w', js)) :
  P.step ⟨w, threads⟩ (.run n r) = some ⟨w', threads.set n (js ++ is)⟩
  := by
  rw [step]
  dsimp only
  rw [h]
  dsimp only
  rw [hexecute, Option.map_some]

/-- No thread has more than one instruction. -/
def State.Single (s : State σ ι) : Prop :=
  ∀ t ∈ s.threads, t.length ≤ 1

/-- The threads that there are take a step. -/
def Advances (P : Programs σ ι ρ) (s s' : State σ ι) : Prop :=
  ∃ n r, P.step s (.run n r) = some s'

/-- Threads keep to one instruction if every instruction is followed by one at the most. -/
theorem single_of_reachable {init : σ → Prop}
    (hexecute : ∀ w r i w' js, P.execute w r i = some (w', js) → js.length ≤ 1)
    (h : (P.machine init).Reachable s) :
  s.Single
  := by
  apply Machine.invariant _ _ h
  · rintro s ⟨-, hthreads⟩ t ht
    rw [hthreads] at ht
    cases ht
  · intro s l s' hs _ hstep
    cases l with
    | start i =>
        change P.step s (.start i) = some s' at hstep
        rw [step] at hstep
        split at hstep
        · obtain rfl := Option.some.inj hstep
          intro t ht
          rcases List.mem_append.mp ht with ht | ht
          · exact hs t ht
          · rw [List.mem_singleton.mp ht]
            rfl
        · cases hstep
    | run n r =>
        change P.step s (.run n r) = some s' at hstep
        rw [step] at hstep
        split at hstep
        · next i is hthread =>
            obtain ⟨⟨w', js⟩, hexec, rfl⟩ := Option.map_eq_some_iff.mp hstep
            have hlength := hs (i :: is) (List.mem_of_getElem? hthread)
            have hnil : is = [] := List.eq_nil_of_length_eq_zero (Nat.le_zero.mp (Nat.le_of_succ_le_succ hlength))
            intro t ht
            rcases List.mem_or_eq_of_mem_set ht with ht | rfl
            · exact hs t ht
            · rw [hnil, List.append_nil]
              exact hexecute _ _ _ _ _ hexec
        · cases hstep

/-- Where threads have one instruction each, every instruction is the next one of a thread. -/
theorem State.Single.advances (h : s.Single) {i : ι} (hi : i ∈ s.todo) {w' : σ} {r : ρ} {js : List ι}
    (hexecute : P.execute s.shared r i = some (w', js)) (hjs : js.length ≤ 1) :
  ∃ s' rest, P.Advances s s' ∧ s.todo = i ::ₘ rest ∧ s'.shared = w' ∧ s'.todo = ↑js + rest ∧ s'.Single
  := by
  obtain ⟨w, threads⟩ := s
  obtain ⟨t, ht, hit⟩ := List.mem_flatten.mp hi
  have hthread : t = [i] := by
    have hlength := h t ht
    cases t with
    | nil => cases hit
    | cons j is =>
        have his : is = [] := List.eq_nil_of_length_eq_zero (Nat.le_zero.mp (Nat.le_of_succ_le_succ hlength))
        rw [his, List.mem_singleton] at hit
        rw [his, hit]
  subst hthread
  obtain ⟨n, hn, hget⟩ := List.mem_iff_getElem.mp ht
  have hnext : threads[n]? = some [i] := by rw [List.getElem?_eq_getElem hn, hget]
  obtain ⟨rest, hbefore, hafter⟩ := flatten_set hnext js
  refine ⟨⟨w', threads.set n (js ++ [])⟩, rest, ⟨n, r, step_run hnext hexecute⟩, hbefore, rfl, hafter, ?_⟩
  intro t ht
  rcases List.mem_or_eq_of_mem_set ht with ht | rfl
  · exact h t ht
  · rwa [List.append_nil]

/-- A test of the instructions as one of the steps. -/
def testStep (test : σ → ι → Bool) (s : State σ ι) : Step ι ρ → Bool
  | .start _ => true
  | .run n _ => (s.next n).all (test s.shared)

/-- A run in which all instructions pass a test when they are executed meets the guard. -/
theorem guarded_of_passes {init : σ → Prop} {ok : σ → ι → Prop} (test : σ → ι → Bool)
    (hok : ∀ w i, test w i = true → ok w i) {ls : List (Step ι ρ)}
    (h : (P.machine init).passes (testStep test) s ls = true) :
  (P.machine init).Guarded (Allows ok) s ls
  := by
  refine Machine.guarded_of_passes (testStep test) (fun s l htest => ?_) h
  cases l with
  | start i => trivial
  | run n r =>
      intro i hi
      dsimp only [testStep] at htest
      rw [hi, Option.all_some] at htest
      exact hok _ i htest

/-! ### What the instructions own -/

section Owned

variable {M : Type} [AddCommMonoid M]

/-- What the instructions own together. -/
def owned (f : ι → M) (todo : Multiset ι) : M :=
  (todo.map f).sum

variable (f : ι → M)

@[simp]
theorem owned_zero :
  owned f 0 = 0
  := rfl

@[simp]
theorem owned_singleton (i : ι) :
  owned f {i} = f i
  := by rw [owned, Multiset.map_singleton, Multiset.sum_singleton]

@[simp]
theorem owned_cons (i : ι) (todo : Multiset ι) :
  owned f (i ::ₘ todo) = f i + owned f todo
  := by rw [owned, Multiset.map_cons, Multiset.sum_cons, owned]

theorem owned_add (todo todo' : Multiset ι) :
  owned f (todo + todo') = owned f todo + owned f todo'
  := by rw [owned, Multiset.map_add, Multiset.sum_add, owned, owned]

@[simp]
theorem owned_coe_add (js : List ι) (todo : Multiset ι) :
  owned f (↑js + todo) = (js.map f).sum + owned f todo
  := by rw [owned_add, owned, Multiset.map_coe, Multiset.sum_coe]

/-- Where no instruction owns anything, all own nothing together. -/
theorem owned_eq_zero {todo : Multiset ι} (h : ∀ i ∈ todo, f i = 0) :
  owned f todo = 0
  := by
  apply Multiset.sum_eq_zero
  intro m hm
  obtain ⟨i, hi, rfl⟩ := Multiset.mem_map.mp hm
  exact h i hi

/-- Where the instructions own nothing together, no instruction owns anything. -/
theorem eq_zero_of_owned_eq_zero {f : ι → ℕ} {todo : Multiset ι} (h : owned f todo = 0) :
  ∀ i ∈ todo, f i = 0
  := by
  intro i hi
  obtain ⟨rest, rfl⟩ := Multiset.exists_cons_of_mem hi
  rw [owned_cons] at h
  apply Nat.eq_zero_of_add_eq_zero_right h

/-- What is among what the instructions own together is owned by one of them. -/
theorem mem_owned {τ : Type} {f : ι → Multiset τ} {x : τ} {todo : Multiset ι} :
  x ∈ owned f todo ↔ ∃ i ∈ todo, x ∈ f i
  := Multiset.mem_bind

end Owned

end Programs
