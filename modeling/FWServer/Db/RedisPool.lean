import FWServer.Db.Database
import FWServer.Kernel.Rotation

/-!
# The pool in turn

`lredishandler` of `services/db/init.lua` is to hand out the services of the pool one after the other.  The index
is the remainder of the number of calls by `maxhandler-1`, one less than there are services.  So the calls go
round all services but the last: `different_iff` says how many calls in a row reach different
services, and a pool of a single service raises at every call.
-/

open Script

namespace Database

/-- The state after `n` calls of `lredishandler`. -/
def afterCalls (n : ℕ) (s : State) : State :=
  (fun s => (lredishandler.resume s).state)^[n] s

/-- The next call of `lredishandler` returns a service of the pool. -/
def Returns (s : State) : Prop :=
  ∃ handler ∈ s.pool.handlers, (lredishandler.resume s).halt = .returned handler

/-- The next `n` calls of `lredishandler` return different services. -/
def Different (n : ℕ) (s : State) : Prop :=
  ∃ handler : ℕ → ℕ, Set.InjOn handler (Set.Iio n) ∧
    ∀ i < n, (lredishandler.resume (afterCalls i s)).halt = .returned (handler i)

/-! ### One call -/

theorem lredishandler_state (s : State) :
  (lredishandler.resume s).state = nextInTurn s
  := by
  obtain ⟨e, he⟩ := lredishandler_eq
  rw [he]
  dsimp only [Coroutine.resume]
  cases handlerInTurn s <;> rfl

theorem lredishandler_halt (s : State) :
  ∃ e, (lredishandler.resume s).halt =
    match handlerInTurn s with
    | some handler => .returned handler
    | none => .raised e
  := by
  obtain ⟨e, he⟩ := lredishandler_eq
  use e s
  rw [he]
  dsimp only [Coroutine.resume]
  cases handlerInTurn s <;> rfl

/-- What a call returns is the service in turn. -/
theorem lredishandler_returned_iff {s : State} {handler : ℕ} :
  (lredishandler.resume s).halt = .returned handler ↔ handlerInTurn s = some handler
  := by
  obtain ⟨e, he⟩ := lredishandler_halt s
  rw [he]
  cases handlerInTurn s with
  | none => apply iff_of_false <;> rintro ⟨⟩
  | some next =>
      constructor
      · rintro ⟨⟩
        rfl
      · rintro ⟨⟩
        rfl

/-! ### Calls in a row -/

@[simp]
theorem afterCalls_zero (s : State) :
  afterCalls 0 s = s
  := rfl

theorem afterCalls_succ (n : ℕ) (s : State) :
  afterCalls (n + 1) s = nextInTurn (afterCalls n s)
  := by
  rw [afterCalls, Function.iterate_succ_apply', lredishandler_state]
  rfl

@[simp]
theorem afterCalls_pool (n : ℕ) (s : State) :
  (afterCalls n s).pool = s.pool
  := by
  induction n with
  | zero => rfl
  | succ n ih =>
      rw [afterCalls_succ, ← ih]
      rfl

/-- Each call is counted. -/
@[simp]
theorem afterCalls_numhandler (n : ℕ) (s : State) :
  (afterCalls n s).numhandler = n + s.numhandler
  := by
  induction n with
  | zero => rw [afterCalls_zero, Nat.zero_add]
  | succ n ih =>
      rw [afterCalls_succ, Nat.add_right_comm, ← ih]
      rfl

theorem count_mod_lt {handlers : List ℕ} (h : 2 ≤ handlers.length) (k : ℕ) :
  k % (handlers.length - 1) < handlers.length
  := by
  have hmod : k % (handlers.length - 1) < handlers.length - 1 := by
    apply Nat.mod_lt
    omega
  omega

/-- The service that the count `k` leads to when there are two or more. -/
def counted (handlers : List ℕ) (h : 2 ≤ handlers.length) (k : ℕ) : ℕ :=
  handlers.get ⟨k % (handlers.length - 1), count_mod_lt h k⟩

theorem counted_inj {handlers : List ℕ} (hnodup : handlers.Nodup) (h : 2 ≤ handlers.length) (i j : ℕ) :
  counted handlers h i = counted handlers h j ↔ i % (handlers.length - 1) = j % (handlers.length - 1)
  := by
  rw [counted, counted, hnodup.get_inj_iff]
  apply Fin.mk.inj_iff

/-- The service in turn is there as soon as the pool has two. -/
theorem handlerInTurn_eq {s : State} (h : 2 ≤ s.pool.handlers.length) :
  handlerInTurn s = some (counted s.pool.handlers h (s.numhandler + 1))
  := by
  rw [handlerInTurn, if_neg (by omega)]
  apply List.getElem?_eq_getElem

theorem handlerInTurn_single {s : State} (h : s.pool.handlers.length = 1) :
  handlerInTurn s = none
  := if_pos h

theorem one_le_length (pool : Pool) :
  1 ≤ pool.handlers.length
  := List.length_pos_of_ne_nil pool.ne_nil

/-- A call returns a service of the pool unless the pool has a single one. -/
theorem returns_iff (s : State) :
  Returns s ↔ s.pool.handlers.length ≠ 1
  := by
  constructor
  · rintro ⟨handler, -, hret⟩ hsingle
    rw [lredishandler_returned_iff, handlerInTurn_single hsingle] at hret
    cases hret
  · intro hne
    have hlength := one_le_length s.pool
    have htwo : 2 ≤ s.pool.handlers.length := by omega
    use counted s.pool.handlers htwo (s.numhandler + 1)
    constructor
    · apply List.get_mem
    · apply lredishandler_returned_iff.mpr (handlerInTurn_eq htwo)

/-- Calls in a row return different services as long as there are fewer of them than services. -/
theorem different_iff {n : ℕ} (hn : 0 < n) (s : State) :
  Different n s ↔ n < s.pool.handlers.length
  := by
  have hlength := one_le_length s.pool
  rcases Nat.eq_or_lt_of_le hlength with hone | htwo
  · apply iff_of_false
    · rintro ⟨handler, -, hret⟩
      have hfirst := hret 0 hn
      rw [lredishandler_returned_iff, afterCalls_zero, handlerInTurn_single hone.symm] at hfirst
      cases hfirst
    · omega
  · have hturn : ∀ i, handlerInTurn (afterCalls i s)
        = some (counted s.pool.handlers htwo (i + (s.numhandler + 1))) := by
      intro i
      have hi := handlerInTurn_eq (s := afterCalls i s) (by rwa [afterCalls_pool])
      simpa only [afterCalls_pool, afterCalls_numhandler, Nat.add_assoc] using hi
    have hinj := counted_inj s.pool.nodup htwo
    rw [← Nat.le_sub_one_iff_lt (by omega), ← Rotation.injOn_iff (n := s.numhandler + 1) (by omega)]
    constructor
    · rintro ⟨handler, hdiff, hret⟩ i hi j hj hmod
      apply hdiff hi hj
      have hi' := lredishandler_returned_iff.mp (hret i hi)
      have hj' := lredishandler_returned_iff.mp (hret j hj)
      rw [hturn] at hi' hj'
      rw [← Option.some.inj hi', ← Option.some.inj hj']
      apply (hinj _ _).mpr hmod
    · intro hdiff
      use fun i => counted s.pool.handlers htwo (i + (s.numhandler + 1))
      constructor
      · intro i hi j hj heq
        apply hdiff hi hj ((hinj _ _).mp heq)
      · intro i _
        apply lredishandler_returned_iff.mpr (hturn i)

/-! ### The pool -/

/-- In the state `s` the next call returns a service of the pool, and as many calls in a row as there are
services return different ones. -/
structure InTurn (s : State) : Prop where
  returns : Returns s
  different : Different s.pool.handlers.length s

/-- Whatever the size of the pool and however often it has been called, `lredishandler` does not go round the
whole pool: it goes round all services but the last. -/
theorem lredishandler_not_inTurn (pool : Pool) (k : ℕ) :
  let s := afterCalls k (initial pool)
  ¬ InTurn s ∧
    (Returns s ↔ pool.handlers.length ≠ 1) ∧
    ∀ n, 0 < n → (Different n s ↔ n < pool.handlers.length)
  := by
  intro s
  have hpool : s.pool = pool := afterCalls_pool k (initial pool)
  rw [← hpool]
  refine ⟨?_, returns_iff s, fun n hn => different_iff hn s⟩
  intro h
  apply Nat.lt_irrefl s.pool.handlers.length
  apply (different_iff (one_le_length s.pool) s).mp h.different

/-- Four services, as many as by default, are not handed out by four calls, and a single one not at all. -/
theorem four_services_not_inTurn :
  ¬ InTurn (initial ⟨[10, 11, 12, 13], fourServices_ne_nil, fourServices_nodup⟩) ∧
    ¬ Returns (initial ⟨[10], List.cons_ne_nil _ _, List.nodup_singleton _⟩)
  := by
  constructor
  · intro h
    obtain ⟨handler, hinj, hret⟩ := h.different
    have hfirst : handler 0 = 12 := Option.some.inj (lredishandler_returned_iff.mp (hret 0 (by decide))).symm
    have hfourth : handler 3 = 12 := Option.some.inj (lredishandler_returned_iff.mp (hret 3 (by decide))).symm
    have hsame : 0 = 3 := hinj (show 0 < 4 by decide) (show 3 < 4 by decide) (hfirst.trans hfourth.symm)
    cases hsame
  · rintro ⟨handler, -, hret⟩
    cases lredishandler_returned_iff.mp hret

end Database
