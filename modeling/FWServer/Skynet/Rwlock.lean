import FWServer.Kernel.Programs

/-!
# The lock for readers and writers

`skynet-src/rwlock.h`, each atomic access to the lock by itself: a reader adds itself to `read` and takes itself
off again if it then finds a writer; a writer sets `write` and waits until no reader is left.  `Inv` says what the
two variables tell of the threads that are inside, and one lemma for each function that the function keeps it;
whatever is run under a lock has its proofs from these.

`Section` is the plainest use of the lock: any number of threads that read or write data they share, in any number
of accesses (`sections_exclusive`).  No thread is kept from finishing for ever (`can_finish`).
-/

namespace Skynet

/-- `struct rwlock`; `read` counts the threads that are in the lock at one time, of which there are never as many as
an `int` counts. -/
structure Rwlock where
  write : Bool
  read : ℤ

namespace Rwlock

/-- `rwlock_init` -/
def init : Rwlock :=
  ⟨false, 0⟩

/-- What a thread in `rwlock_rlock` or `rwlock_wlock` does next. -/
inductive Acquire where
  /-- `while(lock->write)` -/
  | readSpin
  /-- `__sync_add_and_fetch(&lock->read,1)` -/
  | readAdd
  /-- `if (lock->write)` -/
  | readTest
  /-- `__sync_sub_and_fetch(&lock->read,1)` -/
  | readSub
  /-- `while (__sync_lock_test_and_set(&lock->write,1))` -/
  | writeSet
  /-- `while(lock->read)` -/
  | writeWait
  deriving DecidableEq

/-- `rwlock_rlock` -/
def rlock : Acquire :=
  .readSpin

/-- `rwlock_wlock` -/
def wlock : Acquire :=
  .writeSet

/-- The lock after an access, and what the thread does next unless it has the lock. -/
def acquire (lock : Rwlock) : Acquire → Rwlock × Option Acquire
  | .readSpin => (lock, some (if lock.write then .readSpin else .readAdd))
  | .readAdd => ({ lock with read := lock.read + 1 }, some .readTest)
  | .readTest => (lock, if lock.write then some .readSub else none)
  | .readSub => ({ lock with read := lock.read - 1 }, some .readSpin)
  | .writeSet => ({ lock with write := true }, some (if lock.write then .writeSet else .writeWait))
  | .writeWait => (lock, if lock.read = 0 then none else some .writeWait)

/-- `rwlock_runlock` -/
def runlock (lock : Rwlock) : Rwlock :=
  { lock with read := lock.read - 1 }

/-- `rwlock_wunlock` -/
def wunlock (lock : Rwlock) : Rwlock :=
  { lock with write := false }

namespace Acquire

/-- Whether the thread is in `rwlock_rlock`. -/
def isRead : Acquire → Bool
  | .readSpin | .readAdd | .readTest | .readSub => true
  | .writeSet | .writeWait => false

/-- How often the thread is counted by `read` without having the lock. -/
def added : Acquire → ℕ
  | .readTest | .readSub => 1
  | _ => 0

/-- How often the thread has set `write` without having the lock. -/
def waiting : Acquire → ℕ
  | .writeWait => 1
  | _ => 0

@[simp]
theorem rlock_counts :
  rlock.added = 0 ∧ rlock.waiting = 0 ∧ rlock.isRead = true
  := ⟨rfl, rfl, rfl⟩

@[simp]
theorem wlock_counts :
  wlock.added = 0 ∧ wlock.waiting = 0 ∧ wlock.isRead = false
  := ⟨rfl, rfl, rfl⟩

end Acquire

/-! ### What the lock tells of the threads -/

/-- The variables of the lock, when so many threads are counted by `read`, or have set `write`, without having
the lock, and so many are inside as readers and as writers. -/
structure Inv (lock : Rwlock) (added waiting readers writers : ℕ) : Prop where
  read : lock.read = added + readers
  write : (if lock.write then 1 else 0) = waiting + writers
  exclusive : 0 < writers → readers = 0

section

variable {lock lock' : Rwlock} {a a' : Acquire} {added waiting readers writers : ℕ}

theorem Inv.init :
  Inv Rwlock.init 0 0 0 0
  := ⟨rfl, rfl, fun h => absurd h (Nat.lt_irrefl 0)⟩

/-- There is one writer inside at the most. -/
theorem Inv.writers_le_one (h : Inv lock added waiting readers writers) :
  waiting + writers ≤ 1
  := by
  rw [← h.write]
  split <;> decide

/-- A thread that has not got the lock goes on in the same function. -/
theorem Inv.acquire_some
    (h : Inv lock (a.added + added) (a.waiting + waiting) readers writers)
    (hacquire : lock.acquire a = (lock', some a')) :
  Inv lock' (a'.added + added) (a'.waiting + waiting) readers writers ∧ a'.isRead = a.isRead
  := by
  obtain ⟨hread, hwrite, hexclusive⟩ := h
  cases a <;> simp only [acquire, Prod.mk.injEq, Option.some.injEq] at hacquire
  case readSpin =>
    obtain ⟨rfl, rfl⟩ := hacquire
    split
    · exact ⟨⟨hread, hwrite, hexclusive⟩, rfl⟩
    · exact ⟨⟨hread, hwrite, hexclusive⟩, rfl⟩
  case readAdd =>
    obtain ⟨rfl, rfl⟩ := hacquire
    simp only [Acquire.added, Acquire.waiting] at *
    exact ⟨⟨by push_cast; omega, hwrite, hexclusive⟩, rfl⟩
  case readTest =>
    obtain ⟨rfl, h⟩ := hacquire
    split at h
    · obtain rfl := Option.some.inj h
      exact ⟨⟨hread, hwrite, hexclusive⟩, rfl⟩
    · cases h
  case readSub =>
    obtain ⟨rfl, rfl⟩ := hacquire
    simp only [Acquire.added, Acquire.waiting] at *
    exact ⟨⟨by push_cast at hread ⊢; omega, hwrite, hexclusive⟩, rfl⟩
  case writeSet =>
    obtain ⟨rfl, rfl⟩ := hacquire
    cases hset : lock.write with
    | true =>
        simp only [hset, if_true] at hwrite
        exact ⟨⟨hread, hwrite, hexclusive⟩, rfl⟩
    | false =>
        simp only [hset, Bool.false_eq_true, if_false, Acquire.waiting, Acquire.added] at *
        exact ⟨⟨hread, by simp only [if_true]; omega, hexclusive⟩, rfl⟩
  case writeWait =>
    obtain ⟨rfl, h⟩ := hacquire
    split at h
    · cases h
    · obtain rfl := Option.some.inj h
      exact ⟨⟨hread, hwrite, hexclusive⟩, rfl⟩

/-- A thread that gets the lock is inside. -/
theorem Inv.acquire_none
    (h : Inv lock (a.added + added) (a.waiting + waiting) readers writers)
    (hacquire : lock.acquire a = (lock', none)) :
  lock' = lock ∧ if a.isRead then Inv lock added waiting (readers + 1) writers
    else Inv lock added waiting readers (writers + 1)
  := by
  obtain ⟨hread, hwrite, hexclusive⟩ := h
  cases a <;> simp only [acquire, Prod.mk.injEq, reduceCtorEq, and_false] at hacquire
  case readTest =>
    obtain ⟨rfl, h⟩ := hacquire
    split at h
    · cases h
    · next hset =>
        -- No writer has set `write`, so none is inside.
        simp only [Acquire.added, Acquire.waiting, if_neg hset] at hread hwrite
        refine ⟨rfl, ?_, ?_, ?_⟩
        · push_cast at hread ⊢
          omega
        · rw [if_neg hset]
          omega
        · omega
  case writeWait =>
    obtain ⟨rfl, h⟩ := hacquire
    split at h
    · next hzero =>
        simp only [Acquire.added, Acquire.waiting] at hread hwrite
        refine ⟨rfl, ?_, ?_, ?_⟩ <;> omega
    · cases h

theorem Inv.runlock (h : Inv lock added waiting (readers + 1) writers) :
  Inv lock.runlock added waiting readers writers
  := by
  obtain ⟨hread, hwrite, hexclusive⟩ := h
  refine ⟨?_, hwrite, by omega⟩
  have hrunlock : lock.runlock.read = lock.read - 1 := rfl
  push_cast at hread
  omega

theorem Inv.wunlock (h : Inv lock added waiting readers (writers + 1)) :
  Inv lock.wunlock added waiting readers writers
  := by
  obtain ⟨hread, hwrite, hexclusive⟩ := h
  have hone : waiting + (writers + 1) ≤ 1 := by
    rw [← hwrite]
    split <;> decide
  refine ⟨hread, ?_, by omega⟩
  unfold Rwlock.wunlock
  rw [if_neg Bool.false_ne_true]
  omega

end

/-! ### Sections under the lock -/

/-- What a thread does next that reads or writes the data: one that has read under the lock knows the values it
has read, and one that has written the value it has read or written last. -/
inductive Instr (σ : Type) where
  | acquire (a : Acquire)
  | reading (seen : List σ)
  | runlock (seen : List σ)
  | writing (last : Option σ)
  | wunlock
  deriving DecidableEq

namespace Instr

variable {σ : Type}

/-- How often the thread is counted by `read` without having the lock. -/
@[simp]
def added : Instr σ → ℕ
  | .acquire a => a.added
  | _ => 0

/-- How often the thread has set `write` without having the lock. -/
@[simp]
def waiting : Instr σ → ℕ
  | .acquire a => a.waiting
  | _ => 0

/-- Whether the thread has the lock as a reader. -/
@[simp]
def readers : Instr σ → ℕ
  | .reading _ | .runlock _ => 1
  | _ => 0

/-- Whether the thread has the lock as a writer. -/
@[simp]
def writers : Instr σ → ℕ
  | .writing _ | .wunlock => 1
  | _ => 0

/-- The values that the thread has read or written under the lock. -/
def values : Instr σ → List σ
  | .reading seen | .runlock seen => seen
  | .writing last => last.toList
  | _ => []

end Instr

/-- What a thread under the lock does: an access to the data, which if it is a write writes the value, or the
unlock. -/
inductive Access (σ : Type) where
  | read
  | write (v : σ)
  | unlock

/-- The threads that read or write data under the lock. -/
def sections (σ : Type) : Programs (Rwlock × σ) (Instr σ) (Access σ) where
  starts
    | .acquire a => a = rlock ∨ a = wlock
    | _ => false
  execute
    | (lock, data), _, .acquire a =>
        match lock.acquire a with
        | (lock, some a) => some ((lock, data), [.acquire a])
        | (lock, none) => some ((lock, data), [if a.isRead then .reading [] else .writing none])
    | (lock, data), .read, .reading seen => some ((lock, data), [.reading (data :: seen)])
    | (lock, data), .unlock, .reading seen => some ((lock, data), [.runlock seen])
    | (lock, data), _, .runlock _ => some ((lock.runlock, data), [])
    | (lock, data), .read, .writing _ => some ((lock, data), [.writing (some data)])
    | (lock, _), .write v, .writing _ => some ((lock, v), [.writing (some v)])
    | (lock, data), .unlock, .writing _ => some ((lock, data), [.wunlock])
    | (lock, data), _, .wunlock => some ((lock.wunlock, data), [])
    | _, .write _, .reading _ => none

section

variable {σ : Type} {w w' : Rwlock × σ} {todo rest : Multiset (Instr σ)} {i : Instr σ} {js : List (Instr σ)}

open Programs (owned)

/-- The lock tells of the threads, and what a thread has read or written under the lock are the data. -/
structure SectionsInv (w : Rwlock × σ) (todo : Multiset (Instr σ)) : Prop where
  lock : Inv w.1 (owned Instr.added todo) (owned Instr.waiting todo) (owned Instr.readers todo)
    (owned Instr.writers todo)
  values : ∀ i ∈ todo, ∀ v ∈ i.values, v = w.2

/-- A thread that knows values is inside. -/
theorem Instr.values_eq_nil (hreaders : i.readers = 0) (hwriters : i.writers = 0) :
  i.values = []
  := by
  cases i with
  | acquire a => rfl
  | reading seen => cases hreaders
  | runlock seen => cases hreaders
  | writing last => cases hwriters
  | wunlock => rfl

/-- Besides a writer nobody knows a value. -/
theorem SectionsInv.values_of_writer {last : Option σ} (h : SectionsInv w (.writing last ::ₘ rest)) :
  ∀ i ∈ rest, i.values = []
  := by
  have hone := h.lock.writers_le_one
  have hexclusive := h.lock.exclusive
  rw [Programs.owned_cons, Programs.owned_cons] at hexclusive
  rw [Programs.owned_cons, Programs.owned_cons] at hone
  simp only [Instr.writers, Instr.readers] at hone hexclusive
  intro i hi
  apply Instr.values_eq_nil
  · apply Programs.eq_zero_of_owned_eq_zero _ i hi
    omega
  · apply Programs.eq_zero_of_owned_eq_zero _ i hi
    omega

/-- An instruction is replaced by one that knows no more than it did. -/
theorem SectionsInv.values_replace {lock : Rwlock} (h : SectionsInv w (i ::ₘ rest))
    (hjs : ∀ j ∈ js, ∀ v ∈ j.values, v ∈ i.values ∨ v = w.2) :
  ∀ j ∈ ↑js + rest, ∀ v ∈ j.values, v = (lock, w.2).2
  := by
  intro j hj v hv
  rcases Multiset.mem_add.mp hj with hj | hj
  · rcases hjs j hj v hv with hi | rfl
    · exact h.values i (Multiset.mem_cons_self i rest) v hi
    · rfl
  · exact h.values j (Multiset.mem_cons_of_mem hj) v hv

theorem SectionsInv.start (h : SectionsInv w todo) (hi : (sections σ).starts i = true) :
  SectionsInv w (i ::ₘ todo)
  := by
  cases i with
  | acquire a =>
      have hcounts : a.added = 0 ∧ a.waiting = 0 := by
        obtain rfl | rfl := of_decide_eq_true hi <;> exact ⟨rfl, rfl⟩
      constructor
      · simp only [Programs.owned_cons, Instr.added, Instr.waiting, Instr.readers, Instr.writers, hcounts,
          Nat.zero_add]
        exact h.lock
      · intro j hj v hv
        rcases Multiset.mem_cons.mp hj with rfl | hj
        · cases hv
        · exact h.values j hj v hv
  | _ => cases hi

/-- An access to the lock, and what follows it. -/
theorem SectionsInv.acquire {a : Acquire} (h : SectionsInv w (.acquire a ::ₘ rest)) {r : Access σ}
    (hexecute : (sections σ).execute w r (.acquire a) = some (w', js)) :
  SectionsInv w' (↑js + rest)
  := by
  obtain ⟨lock, data⟩ := w
  have hlock := h.lock
  simp only [Programs.owned_cons, Instr.added, Instr.waiting, Instr.readers, Instr.writers, Nat.zero_add] at hlock
  simp only [sections] at hexecute
  rcases hacquire : lock.acquire a with ⟨lock', _ | a'⟩ <;> rw [hacquire] at hexecute <;>
    obtain ⟨rfl, rfl⟩ := Prod.mk.inj (Option.some.inj hexecute)
  · obtain ⟨rfl, hinside⟩ := hlock.acquire_none hacquire
    constructor
    · cases hread : a.isRead with
      | true =>
          rw [hread, if_pos rfl] at hinside
          simpa [Nat.add_comm] using hinside
      | false =>
          rw [hread, if_neg Bool.false_ne_true] at hinside
          simpa [Nat.add_comm] using hinside
    · apply h.values_replace
      intro j hj v hv
      rw [List.mem_singleton.mp hj] at hv
      split at hv <;> cases hv
  · obtain ⟨hgoes, -⟩ := hlock.acquire_some hacquire
    constructor
    · simpa using hgoes
    · apply h.values_replace
      intro j hj v hv
      rw [List.mem_singleton.mp hj] at hv
      cases hv

/-- A step of a thread keeps the invariant. -/
theorem SectionsInv.execute (h : SectionsInv w (i ::ₘ rest)) {r : Access σ}
    (hexecute : (sections σ).execute w r i = some (w', js)) :
  SectionsInv w' (↑js + rest)
  := by
  obtain ⟨lock, data⟩ := w
  have hlock := h.lock
  simp only [Programs.owned_cons] at hlock
  cases i with
  | acquire a => exact h.acquire hexecute
  | reading seen =>
      cases r with
      | read =>
          obtain ⟨rfl, rfl⟩ := Prod.mk.inj (Option.some.inj hexecute)
          constructor
          · simpa using hlock
          · apply h.values_replace
            intro j hj v hv
            rw [List.mem_singleton.mp hj] at hv
            exact (List.mem_cons.mp hv).symm
      | write v => cases hexecute
      | unlock =>
          obtain ⟨rfl, rfl⟩ := Prod.mk.inj (Option.some.inj hexecute)
          constructor
          · simpa using hlock
          · apply h.values_replace
            intro j hj v hv
            rw [List.mem_singleton.mp hj] at hv
            exact .inl hv
  | runlock seen =>
      have hunlock : (sections σ).execute (lock, data) r (.runlock seen) = some ((lock.runlock, data), []) := by
        cases r <;> rfl
      obtain ⟨rfl, rfl⟩ := Prod.mk.inj (Option.some.inj (hunlock.symm.trans hexecute))
      constructor
      · simp only [Instr.added, Instr.waiting, Instr.readers, Instr.writers, Nat.zero_add,
          Nat.add_comm 1] at hlock
        simpa using hlock.runlock
      · apply h.values_replace
        intro j hj
        cases hj
  | writing last =>
      have hothers := h.values_of_writer
      cases r with
      | read =>
          obtain ⟨rfl, rfl⟩ := Prod.mk.inj (Option.some.inj hexecute)
          constructor
          · simpa using hlock
          · apply h.values_replace
            intro j hj v hv
            rw [List.mem_singleton.mp hj] at hv
            exact .inr (List.mem_singleton.mp hv)
      | write v =>
          obtain ⟨rfl, rfl⟩ := Prod.mk.inj (Option.some.inj hexecute)
          constructor
          · simpa using hlock
          · intro j hj u hu
            rcases Multiset.mem_add.mp hj with hj | hj
            · rw [List.mem_singleton.mp hj] at hu
              exact List.mem_singleton.mp hu
            · rw [hothers j hj] at hu
              cases hu
      | unlock =>
          obtain ⟨rfl, rfl⟩ := Prod.mk.inj (Option.some.inj hexecute)
          constructor
          · simpa using hlock
          · apply h.values_replace
            intro j hj v hv
            rw [List.mem_singleton.mp hj] at hv
            cases hv
  | wunlock =>
      have hunlock : (sections σ).execute (lock, data) r .wunlock = some ((lock.wunlock, data), []) := by
        cases r <;> rfl
      obtain ⟨rfl, rfl⟩ := Prod.mk.inj (Option.some.inj (hunlock.symm.trans hexecute))
      constructor
      · simp only [Instr.added, Instr.waiting, Instr.readers, Instr.writers, Nat.zero_add,
          Nat.add_comm 1] at hlock
        simpa using hlock.wunlock
      · apply h.values_replace
        intro j hj
        cases hj

theorem SectionsInv.of_reachable {s : Programs.State (Rwlock × σ) (Instr σ)}
    (h : ((sections σ).machine fun w => w.1 = init).Reachable s) :
  SectionsInv s.shared s.todo
  := by
  apply Programs.invariant_of_reachable SectionsInv _ _ _ h
  · intro w hw
    constructor
    · rw [hw]
      exact .init
    · intro i hi
      cases hi
  · exact fun w todo i hinv hi => hinv.start hi
  · exact fun w w' r i js rest hinv hexecute => hinv.execute hexecute

/-- Whatever the order of the accesses of any number of threads, a writer is inside alone; all that a thread has
read inside is the present value of the data, and all that a writer has read or written last. -/
theorem sections_exclusive {s : Programs.State (Rwlock × σ) (Instr σ)}
    (h : ((sections σ).machine fun w => w.1 = init).Reachable s) {n : ℕ} {i : Instr σ} (hi : s.next n = some i) :
  (i.writers = 1 → ∀ m j, m ≠ n → s.next m = some j → j.readers = 0 ∧ j.writers = 0) ∧
    ∀ v ∈ i.values, v = s.shared.2
  := by
  have hinv := SectionsInv.of_reachable h
  obtain ⟨rest, htodo, hothers⟩ := Programs.todo_eq_cons hi
  rw [htodo] at hinv
  refine ⟨?_, hinv.values i (Multiset.mem_cons_self i rest)⟩
  intro hwriter m j hne hj
  have hone := hinv.lock.writers_le_one
  have hexclusive := hinv.lock.exclusive
  rw [Programs.owned_cons, Programs.owned_cons, hwriter] at hexclusive
  rw [Programs.owned_cons, Programs.owned_cons, hwriter] at hone
  constructor
  · apply Programs.eq_zero_of_owned_eq_zero _ j (hothers m j hne hj)
    omega
  · apply Programs.eq_zero_of_owned_eq_zero _ j (hothers m j hne hj)
    omega

/-- A writer is inside, and has written 5; a reader waits. -/
def writerInside : Programs.State (Rwlock × ℕ) (Instr ℕ) :=
  ⟨(⟨true, 0⟩, 5), [[.writing (some 5)], [.acquire .readSpin]]⟩

theorem writerInside_reachable :
  ((sections ℕ).machine fun w => w.1 = init).Reachable writerInside
  := by
  have hstart : ((sections ℕ).machine fun w => w.1 = init).Reachable ⟨(init, 0), []⟩ := .init ⟨rfl, rfl⟩
  exact Machine.Reachable.exec [.start (.acquire wlock), .start (.acquire rlock), .run 0 .read, .run 0 .read,
    .run 0 (.write 5), .run 1 .read] hstart rfl

/-- The writer is inside alone, and the data are what it has written. -/
theorem sections_exclusive_writerInside :
  ((Instr.acquire .readSpin : Instr ℕ).readers = 0 ∧ (Instr.acquire .readSpin : Instr ℕ).writers = 0) ∧
    5 = writerInside.shared.2
  := by
  have hnext : writerInside.next 0 = some (.writing (some 5)) := rfl
  obtain ⟨halone, hvalues⟩ := sections_exclusive writerInside_reachable hnext
  exact ⟨halone rfl 1 (.acquire .readSpin) Nat.one_ne_zero rfl, hvalues 5 List.mem_cons_self⟩

/-! ### Progress -/

/-- What writers have still to do. -/
@[simp]
def Instr.writerRank : Instr σ → ℕ
  | .acquire .writeSet => 4
  | .acquire .writeWait => 3
  | .writing _ => 2
  | .wunlock => 1
  | _ => 0

/-- One that has nothing to do as a writer has not set `write`. -/
theorem Instr.writer_of_writerRank (h : i.writerRank = 0) :
  i.waiting = 0 ∧ i.writers = 0
  := by
  rcases i with a | seen | seen | last | _
  · cases a with
    | writeSet => cases h
    | writeWait => cases h
    | _ => exact ⟨rfl, rfl⟩
  · exact ⟨rfl, rfl⟩
  · exact ⟨rfl, rfl⟩
  · cases h
  · cases h

/-- What readers have still to do if no writer comes. -/
@[simp]
def Instr.readerRank : Instr σ → ℕ
  | .acquire .readSub => 6
  | .acquire .readSpin => 5
  | .acquire .readAdd => 4
  | .acquire .readTest => 3
  | .reading _ => 2
  | .runlock _ => 1
  | _ => 0

/-- What readers have still to do until `read` does not count them. -/
@[simp]
def Instr.countedRank : Instr σ → ℕ
  | .acquire .readTest => 2
  | .acquire .readSub => 1
  | .reading _ => 2
  | .runlock _ => 1
  | _ => 0

/-- The invariant, of threads that have one instruction each. -/
structure Steady (s : Programs.State (Rwlock × σ) (Instr σ)) : Prop where
  inv : SectionsInv s.shared s.todo
  single : s.Single

/-- The threads that there are take steps. -/
abbrev Runs (s s' : Programs.State (Rwlock × σ) (Instr σ)) : Prop :=
  Relation.ReflTransGen (sections σ).Advances s s'

variable {s : Programs.State (Rwlock × σ) (Instr σ)}

/-- An instruction that is yet to be executed is executed. -/
theorem Steady.advances (h : Steady s) (hi : i ∈ s.todo) {r : Access σ}
    (hexecute : (sections σ).execute s.shared r i = some (w', js)) (hjs : js.length ≤ 1) :
  ∃ s' rest, (sections σ).Advances s s' ∧ s.todo = i ::ₘ rest ∧ s'.shared = w' ∧ s'.todo = ↑js + rest ∧ Steady s'
  := by
  obtain ⟨s', rest, hadvances, htodo, hshared, htodo', hsingle⟩ := h.single.advances hi hexecute hjs
  have hinv := h.inv
  rw [htodo] at hinv
  refine ⟨s', rest, hadvances, htodo, hshared, htodo', ?_, hsingle⟩
  rw [hshared, htodo']
  exact hinv.execute hexecute

/-- Every instruction is followed by one at the most. -/
theorem length_le_one {r : Access σ} (h : (sections σ).execute w r i = some (w', js)) :
  js.length ≤ 1
  := by
  obtain ⟨lock, data⟩ := w
  cases i with
  | acquire a =>
      simp only [sections] at h
      split at h <;> obtain ⟨-, rfl⟩ := Prod.mk.inj (Option.some.inj h) <;> apply Nat.le_refl
  | _ =>
      cases r <;> cases h <;> simp

theorem Steady.of_reachable (h : ((sections σ).machine fun w => w.1 = init).Reachable s) :
  Steady s
  := by
  use SectionsInv.of_reachable h
  apply Programs.single_of_reachable _ h
  exact fun _ _ _ _ _ hexecute => length_le_one hexecute

/-- Some instruction owns what the instructions own together. -/
theorem exists_mem_of_owned_pos {f : Instr σ → ℕ} (h : 0 < owned f todo) :
  ∃ i ∈ todo, 0 < f i
  := by
  by_contra hnone
  apply Nat.lt_irrefl 0
  apply Nat.lt_of_lt_of_eq h
  apply Programs.owned_eq_zero
  intro i hi
  by_contra hne
  exact hnone ⟨i, hi, Nat.pos_of_ne_zero hne⟩

/-- An access to the lock as a step of a thread. -/
theorem execute_acquire_some {a a' : Acquire} {lock : Rwlock} {r : Access σ}
    (h : w.1.acquire a = (lock, some a')) :
  (sections σ).execute w r (.acquire a) = some ((lock, w.2), [.acquire a'])
  := by
  obtain ⟨lock', data⟩ := w
  simp only [sections]
  rw [h]

theorem execute_acquire_none {a : Acquire} {r : Access σ} (h : w.1.acquire a = (w.1, none)) :
  (sections σ).execute w r (.acquire a) = some (w, [if a.isRead then .reading [] else .writing none])
  := by
  obtain ⟨lock', data⟩ := w
  simp only [sections]
  rw [h]

theorem execute_unlock_reading (seen : List σ) :
  (sections σ).execute w .unlock (.reading seen) = some (w, [.runlock seen])
  := rfl

theorem execute_runlock (seen : List σ) :
  (sections σ).execute w .unlock (.runlock seen) = some ((w.1.runlock, w.2), [])
  := rfl

theorem execute_unlock_writing (last : Option σ) :
  (sections σ).execute w .unlock (.writing last) = some (w, [.wunlock])
  := rfl

theorem execute_wunlock :
  (sections σ).execute w .unlock .wunlock = some ((w.1.wunlock, w.2), [])
  := rfl

/-- While a writer has set `write`, some reader that `read` counts comes nearer to not being counted, and the
writers wait. -/
theorem Steady.drain_once (h : Steady s) (hwrite : s.shared.1.write = true) (hread : s.shared.1.read ≠ 0) :
  ∃ s', (sections σ).Advances s s' ∧ Steady s' ∧ s'.shared.1.write = true ∧
    owned Instr.writerRank s'.todo = owned Instr.writerRank s.todo ∧
    owned Instr.countedRank s'.todo < owned Instr.countedRank s.todo
  := by
  have hcounts := h.inv.lock.read
  obtain ⟨i, hi, hcounted⟩ : ∃ i ∈ s.todo, 0 < i.added ∨ 0 < i.readers := by
    rcases Nat.eq_zero_or_pos (owned Instr.added s.todo) with hzero | hpos
    · have hpos : 0 < owned Instr.readers s.todo := by omega
      obtain ⟨i, hi, hreaders⟩ := exists_mem_of_owned_pos hpos
      exact ⟨i, hi, .inr hreaders⟩
    · obtain ⟨i, hi, hadded⟩ := exists_mem_of_owned_pos hpos
      exact ⟨i, hi, .inl hadded⟩
  obtain ⟨w', js, hexecute, hset, hjs, hwriters, hless⟩ : ∃ w' js,
      (sections σ).execute s.shared .unlock i = some (w', js) ∧ w'.1.write = true ∧ js.length ≤ 1 ∧
      (js.map Instr.writerRank).sum = i.writerRank ∧ (js.map Instr.countedRank).sum < i.countedRank := by
    rcases i with a | seen | seen | last | _
    · cases a with
      | readTest =>
          have hback : s.shared.1.acquire .readTest = (s.shared.1, some .readSub) := by
            rw [acquire, if_pos hwrite]
          exact ⟨_, _, execute_acquire_some hback, hwrite, Nat.le_refl 1, rfl, Nat.lt_succ_self 1⟩
      | readSub => exact ⟨_, _, execute_acquire_some rfl, hwrite, Nat.le_refl 1, rfl, Nat.one_pos⟩
      | _ => simp [Acquire.added] at hcounted
    · exact ⟨_, _, execute_unlock_reading seen, hwrite, Nat.le_refl 1, rfl, Nat.lt_succ_self 1⟩
    · exact ⟨_, _, execute_runlock seen, hwrite, Nat.zero_le 1, rfl, Nat.one_pos⟩
    · simp at hcounted
    · simp at hcounted
  obtain ⟨s', rest, hadvances, htodo, hshared, htodo', hsteady⟩ := h.advances hi hexecute hjs
  refine ⟨s', hadvances, hsteady, by rw [hshared, hset], ?_, ?_⟩ <;>
    rw [htodo, htodo', Programs.owned_coe_add, Programs.owned_cons] <;> omega

/-- While a writer has set `write`, the threads can be run until no reader is counted. -/
theorem Steady.drain (h : Steady s) (hwrite : s.shared.1.write = true) :
  ∃ s', Runs s s' ∧ Steady s' ∧ s'.shared.1.write = true ∧ s'.shared.1.read = 0 ∧
    owned Instr.writerRank s'.todo = owned Instr.writerRank s.todo
  := by
  induction hk : owned Instr.countedRank s.todo using Nat.strong_induction_on generalizing s with
  | _ k ih =>
      by_cases hread : s.shared.1.read = 0
      · exact ⟨s, .refl, h, hwrite, hread, rfl⟩
      · obtain ⟨s₁, hadvances, h₁, hwrite₁, hrank₁, hless⟩ := h.drain_once hwrite hread
        obtain ⟨s', hruns, h', hwrite', hread', hrank'⟩ := ih _ (by omega) h₁ hwrite₁ rfl
        exact ⟨s', .head hadvances hruns, h', hwrite', hread', hrank'.trans hrank₁⟩

/-- As long as there are writers, the threads can be run until a writer has come nearer to its end. -/
theorem Steady.run_writer (h : Steady s) (hpos : 0 < owned Instr.writerRank s.todo) :
  ∃ s', Runs s s' ∧ Steady s' ∧ owned Instr.writerRank s'.todo < owned Instr.writerRank s.todo
  := by
  -- First no reader is counted, if a writer has set `write`.
  obtain ⟨s₁, hruns, h₁, hread, hrank⟩ : ∃ s₁, Runs s s₁ ∧ Steady s₁ ∧
      (s₁.shared.1.write = true → s₁.shared.1.read = 0) ∧
      owned Instr.writerRank s₁.todo = owned Instr.writerRank s.todo := by
    by_cases hwrite : s.shared.1.write = true
    · obtain ⟨s₁, hruns, h₁, -, hread, hrank⟩ := h.drain hwrite
      exact ⟨s₁, hruns, h₁, fun _ => hread, hrank⟩
    · exact ⟨s, .refl, h, fun hset => absurd hset hwrite, rfl⟩
  -- Then a writer that is not spinning can go on.
  obtain ⟨i, hi, w', js, hexecute, hjs, hless⟩ : ∃ i ∈ s₁.todo, ∃ w' js,
      (sections σ).execute s₁.shared .unlock i = some (w', js) ∧ js.length ≤ 1 ∧
      (js.map Instr.writerRank).sum < i.writerRank := by
    have hlock := h₁.inv.lock
    by_cases hwrite : s₁.shared.1.write = true
    · have hset := hlock.write
      rw [hwrite, if_pos rfl] at hset
      obtain ⟨i, hi, howner⟩ : ∃ i ∈ s₁.todo, 0 < i.waiting ∨ 0 < i.writers := by
        rcases Nat.eq_zero_or_pos (owned Instr.waiting s₁.todo) with hzero | hpos
        · have hone : 0 < owned Instr.writers s₁.todo := by omega
          obtain ⟨i, hi, hwriters⟩ := exists_mem_of_owned_pos hone
          exact ⟨i, hi, .inr hwriters⟩
        · obtain ⟨i, hi, hwaiting⟩ := exists_mem_of_owned_pos hpos
          exact ⟨i, hi, .inl hwaiting⟩
      use i, hi
      rcases i with a | seen | seen | last | _
      · cases a with
        | writeWait =>
            have henter : s₁.shared.1.acquire .writeWait = (s₁.shared.1, none) := by
              rw [acquire, if_pos (hread hwrite)]
            exact ⟨_, _, execute_acquire_none henter, Nat.le_refl 1, Nat.lt_succ_self 2⟩
        | _ => simp [Acquire.waiting] at howner
      · simp at howner
      · simp at howner
      · exact ⟨_, _, execute_unlock_writing last, Nat.le_refl 1, Nat.lt_succ_self 1⟩
      · exact ⟨_, _, execute_wunlock, Nat.zero_le 1, Nat.one_pos⟩
    · have hset := hlock.write
      rw [if_neg hwrite] at hset
      have hnone (i : Instr σ) (hi : i ∈ s₁.todo) : i.waiting = 0 ∧ i.writers = 0 :=
        ⟨Programs.eq_zero_of_owned_eq_zero (by omega) i hi, Programs.eq_zero_of_owned_eq_zero (by omega) i hi⟩
      rw [← hrank] at hpos
      obtain ⟨i, hi, hwriter⟩ := exists_mem_of_owned_pos hpos
      have howner := hnone i hi
      use i, hi
      rcases i with a | seen | seen | last | _
      · cases a with
        | writeSet =>
            have htake : s₁.shared.1.acquire .writeSet = ({ s₁.shared.1 with write := true }, some .writeWait) := by
              rw [acquire, if_neg hwrite]
            exact ⟨_, _, execute_acquire_some htake, Nat.le_refl 1, Nat.lt_succ_self 3⟩
        | writeWait => simp [Acquire.waiting] at howner
        | _ => simp at hwriter
      · simp at hwriter
      · simp at hwriter
      · simp at howner
      · simp at howner
  obtain ⟨s', rest, hadvances, htodo, -, htodo', hsteady⟩ := h₁.advances hi hexecute hjs
  refine ⟨s', .tail hruns hadvances, hsteady, ?_⟩
  rw [← hrank, htodo, htodo', Programs.owned_coe_add, Programs.owned_cons]
  omega

/-- When there are no writers, every reader can go on. -/
theorem Steady.run_reader (h : Steady s) (hzero : owned Instr.writerRank s.todo = 0) (hi : i ∈ s.todo) :
  ∃ s', (sections σ).Advances s s' ∧ Steady s' ∧ owned Instr.writerRank s'.todo = 0 ∧
    owned Instr.readerRank s'.todo < owned Instr.readerRank s.todo
  := by
  have hnone := Programs.eq_zero_of_owned_eq_zero hzero
  have hfree : ¬ s.shared.1.write = true := by
    intro hwrite
    have hset := h.inv.lock.write
    rw [if_pos hwrite, Programs.owned_eq_zero, Programs.owned_eq_zero] at hset
    · cases hset
    · exact fun j hj => (Instr.writer_of_writerRank (hnone j hj)).2
    · exact fun j hj => (Instr.writer_of_writerRank (hnone j hj)).1
  obtain ⟨w', js, hexecute, hjs, hwriters, hless⟩ : ∃ w' js,
      (sections σ).execute s.shared .unlock i = some (w', js) ∧ js.length ≤ 1 ∧
      (js.map Instr.writerRank).sum = 0 ∧ (js.map Instr.readerRank).sum < i.readerRank := by
    have hwriter := hnone i hi
    rcases i with a | seen | seen | last | _
    · cases a with
      | readSpin =>
          have hgo : s.shared.1.acquire .readSpin = (s.shared.1, some .readAdd) := by
            rw [acquire, if_neg hfree]
          exact ⟨_, _, execute_acquire_some hgo, Nat.le_refl 1, rfl, Nat.lt_succ_self 4⟩
      | readAdd => exact ⟨_, _, execute_acquire_some rfl, Nat.le_refl 1, rfl, Nat.lt_succ_self 3⟩
      | readTest =>
          have henter : s.shared.1.acquire .readTest = (s.shared.1, none) := by
            rw [acquire, if_neg hfree]
          exact ⟨_, _, execute_acquire_none henter, Nat.le_refl 1, rfl, Nat.lt_succ_self 2⟩
      | readSub => exact ⟨_, _, execute_acquire_some rfl, Nat.le_refl 1, rfl, Nat.lt_succ_self 5⟩
      | _ => simp at hwriter
    · exact ⟨_, _, execute_unlock_reading seen, Nat.le_refl 1, rfl, Nat.lt_succ_self 1⟩
    · exact ⟨_, _, execute_runlock seen, Nat.zero_le 1, rfl, Nat.one_pos⟩
    · simp at hwriter
    · simp at hwriter
  obtain ⟨s', rest, hadvances, htodo, -, htodo', hsteady⟩ := h.advances hi hexecute hjs
  rw [htodo, Programs.owned_cons] at hzero
  refine ⟨s', hadvances, hsteady, ?_, ?_⟩
  · rw [htodo', Programs.owned_coe_add]
    omega
  · rw [htodo, htodo', Programs.owned_coe_add, Programs.owned_cons]
    omega

/-- In every state that is reached, the threads that there are can all be run to their ends. -/
theorem can_finish {s : Programs.State (Rwlock × σ) (Instr σ)}
    (h : ((sections σ).machine fun w => w.1 = init).Reachable s) :
  ∃ s', Runs s s' ∧ s'.todo = 0
  := by
  have hsteady := Steady.of_reachable h
  clear h
  induction hk : owned Instr.writerRank s.todo using Nat.strong_induction_on generalizing s with
  | _ k ihwriter =>
      rcases Nat.eq_zero_or_pos (owned Instr.writerRank s.todo) with hzero | hpos
      · clear ihwriter hk
        induction hl : owned Instr.readerRank s.todo using Nat.strong_induction_on generalizing s with
        | _ l ihreader =>
            rcases Multiset.empty_or_exists_mem s.todo with hempty | ⟨i, hi⟩
            · exact ⟨s, .refl, hempty⟩
            · obtain ⟨s₁, hadvances, h₁, hzero₁, hless⟩ := hsteady.run_reader hzero hi
              obtain ⟨s', hruns, hempty⟩ := ihreader _ (by omega) h₁ hzero₁ rfl
              exact ⟨s', .head hadvances hruns, hempty⟩
      · obtain ⟨s₁, hruns₁, h₁, hless⟩ := hsteady.run_writer hpos
        obtain ⟨s', hruns, hempty⟩ := ihwriter _ (by omega) h₁ rfl
        exact ⟨s', hruns₁.trans hruns, hempty⟩

theorem can_finish_writerInside :
  ∃ s', Runs writerInside s' ∧ s'.todo = 0
  := can_finish writerInside_reachable

end

end Rwlock

end Skynet
