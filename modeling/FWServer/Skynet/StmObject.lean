import FWServer.Kernel.Counts
import FWServer.Skynet.Stm
import Mathlib.Algebra.GroupWithZero.Nat

/-!
# References to a shared object

The references of the object of `lualib-src/lua-stm.c` are those of the threads and the pointers that have been
given; the lock tells of the threads; and after the last reference has gone the object is freed, with nobody left who
has it.  The references are one more than an `int` counts at the most, for then an assertion of `stm_grab` fails.

One case is left: a reader that has given up its reference, and has not unlocked yet, still has the object when
another reader has given up the last one and frees it.  `LastAlone` excludes it.
-/

namespace Skynet

namespace Stm

open Counts (count)
open Programs (owned)
open Node (touch_fields)

/-! ### What an instruction stands for -/

namespace Instr

/-- How often the thread is counted by `read` without having the lock. -/
@[simp]
def added : Instr → ℕ
  | .acquire a _ => a.added
  | _ => 0

/-- How often the thread has set `write` without having the lock. -/
@[simp]
def waiting : Instr → ℕ
  | .acquire a _ => a.waiting
  | _ => 0

/-- Whether the thread has the lock as a reader; one that frees the object never unlocks. -/
@[simp]
def readers : Instr → ℕ
  | .grabReference | .loadCopy _ | .grabCopy _ _ | .copyUnlock _ _ | .readerReference _ | .readerUnlock
  | .readerFree | .grabUnlock _ => 1
  | _ => 0

/-- Whether the thread has the lock as a writer. -/
@[simp]
def writers : Instr → ℕ
  | .swap _ | .updateUnlock _ | .releaseLast | .clearCopy | .releaseReference | .releaseUnlock | .releaseFree => 1
  | _ => 0

/-- The references to the object that the thread has. -/
@[simp]
def references : Instr → ℕ
  | .writer | .reader _ | .acquire _ _ | .grabReference | .swap _ | .updateUnlock _ | .releaseLast | .clearCopy
  | .releaseReference | .loadCopy _ | .grabCopy _ _ | .copyUnlock _ _ | .compare _ _ | .deliver _ _
  | .readerReference _ => 1
  | .grabUnlock _ => 2
  | _ => 0

/-- Whether the thread has the box of the writer, and the object has a copy. -/
@[simp]
def keepers : Instr → ℕ
  | .writer | .acquire _ .grab | .acquire _ (.update _) | .acquire _ .release | .grabReference | .swap _
  | .updateUnlock _ | .releaseLast | .clearCopy | .grabUnlock _ => 1
  | _ => 0

/-- Whether the thread has given up its reference and still has to unlock. -/
@[simp]
def unlocks : Instr → ℕ
  | .releaseUnlock | .readerUnlock => 1
  | _ => 0

/-- Whether the thread is about to free the object. -/
@[simp]
def frees : Instr → ℕ
  | .releaseFree | .readerFree => 1
  | _ => 0

/-- Whether the thread has found no reference left for an `int` to count. -/
@[simp]
def overdrawn : Instr → ℕ
  | .grabUnlock ref => if 0 < ref then 0 else 1
  | _ => 0

/-- Whether a thread takes the lock in the way that its section needs. -/
@[simp]
def Fits : Instr → Prop
  | .acquire a .grab | .acquire a (.copy _) | .acquire a (.releaseReader _) => a.isRead = true
  | .acquire a (.update _) | .acquire a .release => a.isRead = false
  | _ => True

/-- Whether the thread has the object. -/
def has (i : Instr) : Bool :=
  0 < i.references + i.unlocks

end Instr

/-- What the references, the lock and the frees of the object tell of the threads. -/
structure Counted (w : Node) (todo : Multiset Instr) : Prop where
  unmade : w.made = false → w.lock = .init ∧ w.reference = 0
  lock : w.objectFrees = 0 →
    w.lock.Inv (owned Instr.added todo) (owned Instr.waiting todo) (owned Instr.readers todo)
      (owned Instr.writers todo)
  reference : count w.reference = owned Instr.references todo + w.pointers
  bounded : count w.reference ≤ 2 ^ 31 + owned Instr.overdrawn todo
  overflow : 2 ^ 31 ≤ count w.reference ∨ 0 < owned Instr.overdrawn todo → w.overflowed = true
  keeper : (if w.copy.isSome then 1 else 0) = owned Instr.keepers todo
  object : w.objectFrees + owned Instr.frees todo = if w.made = true ∧ count w.reference = 0 then 1 else 0
  unlocks : w.objectFrees ≠ 0 → owned Instr.unlocks todo = 0
  fits : ∀ i ∈ todo, i.Fits

/-- When a reader frees the object no other reader has still to unlock: `read` counts it alone. -/
def LastAlone (w : Node) : Instr → Prop
  | .readerFree => w.lock.read = 1
  | _ => True

section

variable {w w' : Node} {todo rest : Multiset Instr} {i : Instr} {js : List Instr} {r : Action}

/-- Whoever has the box of the writer has a reference. -/
theorem keepers_eq_zero (h : owned Instr.references todo = 0) :
  owned Instr.keepers todo = 0
  := by
  apply Programs.owned_eq_zero
  intro j hj
  have hj := Programs.eq_zero_of_owned_eq_zero h j hj
  cases j <;> simp_all

/-- While a thread has a reference, the object has been made and nobody frees it. -/
theorem Counted.alive (h : Counted w (i ::ₘ rest)) (hi : 0 < i.references) :
  w.made = true ∧ 0 < count w.reference ∧ w.objectFrees = 0 ∧ owned Instr.frees rest = 0
  := by
  have hreference := h.reference
  rw [Programs.owned_cons] at hreference
  have hpos : 0 < count w.reference := by omega
  have hmade : w.made = true := by
    by_contra hne
    rw [(h.unmade (Bool.eq_false_of_not_eq_true hne)).2, Counts.count_zero] at hpos
    exact Nat.lt_irrefl 0 hpos
  have hobject := h.object
  rw [if_neg fun hdead => Nat.ne_of_gt hpos hdead.2, Programs.owned_cons] at hobject
  refine ⟨hmade, hpos, ?_, ?_⟩ <;> omega

/-- While a thread has still to unlock, the object has not been freed. -/
theorem Counted.alive_of_unlocks (h : Counted w (i ::ₘ rest)) (hi : 0 < i.unlocks) :
  w.objectFrees = 0
  := by
  by_contra hne
  have hunlocks := h.unlocks hne
  rw [Programs.owned_cons] at hunlocks
  omega

/-- While a thread is about to free the object, nobody has a reference or frees it as well. -/
theorem Counted.alive_of_frees (h : Counted w (i ::ₘ rest)) (hi : i.frees = 1) :
  w.objectFrees = 0 ∧ owned Instr.frees rest = 0 ∧ count w.reference = 0
  := by
  have hobject := h.object
  rw [Programs.owned_cons, hi] at hobject
  split at hobject
  · next hdead => refine ⟨?_, ?_, hdead.2⟩ <;> omega
  · omega

theorem fits_replace (h : ∀ j ∈ i ::ₘ rest, j.Fits) (hjs : ∀ j ∈ js, j.Fits) :
  ∀ j ∈ ↑js + rest, j.Fits
  := by
  intro j hj
  rcases Multiset.mem_add.mp hj with hj | hj
  · exact hjs j hj
  · exact h j (Multiset.mem_cons_of_mem hj)

/-- What is executed next stands for what the instruction stood for. -/
def SameCounts (i : Instr) (js : List Instr) : Prop :=
  ∀ f ∈ [Instr.added, Instr.waiting, Instr.readers, Instr.writers, Instr.references, Instr.keepers, Instr.unlocks,
    Instr.frees, Instr.overdrawn], (js.map f).sum = f i

/-- The object looks the same to the counts. -/
structure SameObject (w w' : Node) : Prop where
  made : w'.made = w.made
  lock : w'.lock = w.lock
  reference : w'.reference = w.reference
  copy : w'.copy.isSome = w.copy.isSome
  pointers : w'.pointers = w.pointers
  objectFrees : w'.objectFrees = w.objectFrees
  overflowed : w.overflowed = true → w'.overflowed = true

/-- An instruction that does nothing to the object, and is followed by others that stand for the same. -/
theorem Counted.pass (h : Counted w (i ::ₘ rest)) (hw : SameObject w w') (hsame : SameCounts i js)
    (hjs : ∀ j ∈ js, j.Fits) :
  Counted w' (↑js + rest)
  := by
  obtain ⟨hunmade, hlock, hreference, hbounded, hoverflow, hkeeper, hobject, hunlocks, hfits⟩ := h
  obtain ⟨hw₁, hw₂, hw₃, hw₄, hw₅, hw₆, hw₇⟩ := hw
  have howned (f : Instr → ℕ)
      (hf : f ∈ [Instr.added, Instr.waiting, Instr.readers, Instr.writers, Instr.references, Instr.keepers,
        Instr.unlocks, Instr.frees, Instr.overdrawn]) : owned f (↑js + rest) = owned f (i ::ₘ rest) := by
    rw [Programs.owned_coe_add, Programs.owned_cons, hsame f hf]
  constructor
  · rwa [hw₁, hw₂, hw₃]
  · rwa [hw₂, hw₆, howned _ (by simp), howned _ (by simp), howned _ (by simp), howned _ (by simp)]
  · rwa [hw₃, hw₅, howned _ (by simp)]
  · rwa [hw₃, howned _ (by simp)]
  · rw [hw₃, howned _ (by simp)]
    exact fun hlarge => hw₇ (hoverflow hlarge)
  · rwa [hw₄, howned _ (by simp)]
  · rwa [hw₁, hw₃, hw₆, howned _ (by simp)]
  · rwa [hw₆, howned _ (by simp)]
  · exact fits_replace hfits hjs

theorem SameObject.refl (w : Node) :
  SameObject w w
  := ⟨rfl, rfl, rfl, rfl, rfl, rfl, id⟩

theorem SameObject.touch (w : Node) :
  SameObject w w.touch
  := ⟨rfl, rfl, rfl, rfl, rfl, rfl, id⟩

theorem SameObject.releaseCopy (w : Node) (copy : Option ℕ) :
  SameObject w (w.releaseCopy copy).1
  := by
  cases copy <;> exact ⟨rfl, rfl, rfl, rfl, rfl, rfl, id⟩

theorem SameObject.trans {w'' : Node} (h : SameObject w w') (h' : SameObject w' w'') :
  SameObject w w''
  where
  made := h'.made.trans h.made
  lock := h'.lock.trans h.lock
  reference := h'.reference.trans h.reference
  copy := h'.copy.trans h.copy
  pointers := h'.pointers.trans h.pointers
  objectFrees := h'.objectFrees.trans h.objectFrees
  overflowed hw := h'.overflowed (h.overflowed hw)

/-! ### What an instruction does to the counts -/

/-- The frees of a copy are no part of the object. -/
theorem sameCounts_releaseCopy (copy : Option ℕ) :
  SameCounts (.releaseCopy copy) (w.releaseCopy copy).2 ∧ ∀ j ∈ (w.releaseCopy copy).2, j.Fits
  := by
  cases copy with
  | none => simp [SameCounts, Node.releaseCopy]
  | some c =>
      simp only [Node.releaseCopy]
      split <;> simp [SameCounts]

/-- An assertion fails. -/
theorem Counted.abort (h : Counted w (i ::ₘ rest)) (aborted : Bool) :
  Counted { w.touch with aborted := aborted } (↑[i] + rest)
  := by
  refine h.pass ⟨rfl, rfl, rfl, rfl, rfl, rfl, id⟩ ?_ ?_
  · intro f _
    rw [List.map_singleton, List.sum_singleton]
  · intro j hj
    rw [List.mem_singleton.mp hj]
    exact h.fits i (Multiset.mem_cons_self _ _)

/-- What a service does with its box. -/
theorem Counted.box (h : Counted w (i ::ₘ rest)) (hexecute : w.perform r i = some (w', js))
    (hi : i = .writer ∨ ∃ box, i = .reader box) :
  Counted w' (↑js + rest)
  := by
  obtain rfl | ⟨box, rfl⟩ := hi
  · cases r with
    | copy =>
        obtain ⟨rfl, rfl⟩ := Prod.mk.inj (Option.some.inj hexecute)
        exact h.pass (.refl w) (by simp [SameCounts]) (by simp)
    | update msg =>
        obtain ⟨rfl, rfl⟩ := Prod.mk.inj (Option.some.inj hexecute)
        exact h.pass ⟨rfl, rfl, rfl, rfl, rfl, rfl, id⟩ (by simp [SameCounts]) (by simp)
    | read => cases hexecute
    | delete =>
        rw [Node.perform] at hexecute
        split at hexecute <;> obtain ⟨rfl, rfl⟩ := Prod.mk.inj (Option.some.inj hexecute)
        · exact h.pass (.touch w) (by simp [SameCounts]) (by simp)
        · exact h.abort true
  · cases r <;> simp only [Node.perform, reduceCtorEq, Option.some.injEq, Prod.mk.injEq] at hexecute <;>
      obtain ⟨rfl, rfl⟩ := hexecute <;> exact h.pass (.refl w) (by simp [SameCounts]) (by simp)

theorem Counted.swap {c : ℕ} (h : Counted w (.swap c ::ₘ rest)) :
  Counted { w.touch with copy := some c } (↑[Instr.updateUnlock w.copy] + rest)
  := by
  have hkeeper := h.keeper
  rw [Programs.owned_cons] at hkeeper
  have hsome : w.copy.isSome = true := by
    by_contra hnone
    rw [if_neg hnone, Instr.keepers] at hkeeper
    omega
  exact h.pass ⟨rfl, rfl, rfl, hsome.symm, rfl, rfl, id⟩ (by simp [SameCounts]) (by simp)

theorem Counted.releaseLast (h : Counted w (.releaseLast ::ₘ rest)) :
  Counted (w.touch.releaseCopy w.copy).1 (↑((w.touch.releaseCopy w.copy).2 ++ [Instr.clearCopy]) + rest)
  := by
  obtain ⟨hsame, hfits⟩ := sameCounts_releaseCopy (w := w.touch) w.copy
  apply h.pass ((SameObject.touch w).trans (.releaseCopy _ _))
  · intro f hf
    rw [List.map_append, List.sum_append, hsame f hf]
    simp only [List.mem_cons, List.not_mem_nil, or_false] at hf
    obtain rfl | rfl | rfl | rfl | rfl | rfl | rfl | rfl | rfl := hf <;> rfl
  · intro j hj
    rcases List.mem_append.mp hj with hj | hj
    · exact hfits j hj
    · rw [List.mem_singleton.mp hj]
      trivial

/-- The counts of a live object: what is left of `Counted` while there are references. -/
theorem Counted.of_alive {todo' : Multiset Instr} (hmade : w'.made = true) (hpos : 0 < count w'.reference)
    (hlock : w'.lock.Inv (owned Instr.added todo') (owned Instr.waiting todo') (owned Instr.readers todo')
      (owned Instr.writers todo'))
    (hreference : count w'.reference = owned Instr.references todo' + w'.pointers)
    (hbounded : count w'.reference ≤ 2 ^ 31 + owned Instr.overdrawn todo')
    (hoverflow : 2 ^ 31 ≤ count w'.reference ∨ 0 < owned Instr.overdrawn todo' → w'.overflowed = true)
    (hkeeper : (if w'.copy.isSome then 1 else 0) = owned Instr.keepers todo')
    (hobject : w'.objectFrees + owned Instr.frees todo' = 0) (hfits : ∀ i ∈ todo', i.Fits) :
  Counted w' todo'
  where
  unmade hne := absurd (hmade.symm.trans hne) (by decide)
  lock _ := hlock
  reference := hreference
  bounded := hbounded
  overflow := hoverflow
  keeper := hkeeper
  object := by rw [hobject, if_neg fun hdead => Nat.ne_of_gt hpos hdead.2]
  unlocks hfreed := absurd (Nat.eq_zero_of_add_eq_zero_right hobject) hfreed
  fits := hfits

/-- A reader takes a pointer, and its reference with it. -/
theorem Counted.newReader (h : Counted w (.newReader ::ₘ rest))
    (hexecute : w.perform r .newReader = some (w', js)) :
  Counted w' (↑js + rest)
  := by
  obtain ⟨hunmade, hlock, hreference, hbounded, hoverflow, hkeeper, hobject, hunlocks, hfits⟩ := h
  rw [Node.perform] at hexecute
  split at hexecute
  · cases hexecute
  · next hpointers =>
      obtain ⟨rfl, rfl⟩ := Prod.mk.inj (Option.some.inj hexecute)
      simp only [Programs.owned_cons, Instr.added, Instr.waiting, Instr.readers, Instr.writers, Nat.zero_add] at hlock
      simp only [Programs.owned_cons, Instr.references, Instr.keepers, Instr.frees, Instr.unlocks, Instr.overdrawn,
        Nat.zero_add] at hreference hbounded hoverflow hkeeper hobject hunlocks
      refine ⟨hunmade, ?_, ?_, ?_, ?_, ?_, ?_, ?_, fits_replace hfits ?_⟩
      · simpa using hlock
      · simp
        omega
      · simpa using hbounded
      · simpa using hoverflow
      · simpa using hkeeper
      · simpa using hobject
      · simpa using hunlocks
      · simp

/-- An access to the lock, and what follows it. -/
theorem Counted.acquire {a : Rwlock.Acquire} {s : Section} (h : Counted w (.acquire a s ::ₘ rest))
    (hexecute : w.perform r (.acquire a s) = some (w', js)) :
  Counted w' (↑js + rest)
  := by
  obtain ⟨hmade, hpos, hobject, hfrees⟩ := h.alive (i := .acquire a s) Nat.one_pos
  have hlock := h.lock hobject
  have hreference := h.reference
  have hbounded := h.bounded
  have hoverflow := h.overflow
  have hkeeper := h.keeper
  have hfits := h.fits _ (Multiset.mem_cons_self _ _)
  simp only [Programs.owned_cons, Instr.added, Instr.waiting, Instr.readers, Instr.writers, Nat.zero_add] at hlock
  rw [Programs.owned_cons] at hreference hbounded hoverflow hkeeper
  rw [Node.perform] at hexecute
  rcases hacquire : w.lock.acquire a with ⟨lock', _ | a'⟩ <;> rw [hacquire] at hexecute <;>
    obtain ⟨rfl, rfl⟩ := Prod.mk.inj (Option.some.inj hexecute)
  · obtain ⟨rfl, hinside⟩ := hlock.acquire_none hacquire
    refine Counted.of_alive hmade hpos ?_ ?_ ?_ ?_ ?_ ?_ (fits_replace h.fits ?_)
    · cases s <;> rw [Instr.Fits] at hfits <;> simpa [Node.enter, hfits, Nat.add_comm] using hinside
    · cases s <;> simpa [Node.enter] using hreference
    · cases s <;> simpa [Node.enter] using hbounded
    · cases s <;> simpa [Node.enter] using hoverflow
    · cases s <;> simpa [Node.enter] using hkeeper
    · cases s <;> simp [Node.enter, Node.touch, hobject, hfrees]
    · cases s <;> simp [Node.enter]
  · obtain ⟨hgoes, hread⟩ := hlock.acquire_some hacquire
    refine Counted.of_alive hmade hpos ?_ ?_ ?_ ?_ ?_ ?_ (fits_replace h.fits ?_)
    · simpa using hgoes
    · simpa using hreference
    · simpa using hbounded
    · simpa using hoverflow
    · cases s <;> simpa using hkeeper
    · simp [Node.touch, hobject, hfrees]
    · cases s <;> simp_all

/-- An unlock by a thread that keeps a reference. -/
theorem Counted.unlock_alive {pointers : ℕ} {lock : Rwlock} (h : Counted w (i ::ₘ rest)) (hi : 0 < i.references)
    (hlock : lock.Inv ((js.map Instr.added).sum + owned Instr.added rest)
      ((js.map Instr.waiting).sum + owned Instr.waiting rest)
      ((js.map Instr.readers).sum + owned Instr.readers rest)
      ((js.map Instr.writers).sum + owned Instr.writers rest))
    (hreferences : (js.map Instr.references).sum + pointers = i.references + w.pointers)
    (hkeepers : (js.map Instr.keepers).sum = i.keepers) (hfrees : (js.map Instr.frees).sum = 0)
    (hoverdrawn : (js.map Instr.overdrawn).sum = 0) (hi' : i.overdrawn = 0) (hjs : ∀ j ∈ js, j.Fits) :
  Counted { w.touch with lock := lock, pointers := pointers } (↑js + rest)
  := by
  obtain ⟨hmade, hpos, hobject, hnone⟩ := h.alive hi
  have hreference := h.reference
  have hbounded := h.bounded
  have hoverflow := h.overflow
  have hkeeper := h.keeper
  rw [Programs.owned_cons] at hreference hbounded hoverflow hkeeper
  rw [hi', Nat.zero_add] at hbounded hoverflow
  refine Counted.of_alive hmade hpos ?_ ?_ ?_ ?_ ?_ ?_ (fits_replace h.fits hjs)
  · simpa only [Programs.owned_coe_add] using hlock
  · rw [Programs.owned_coe_add]
    change count w.reference = _ + pointers
    omega
  · rwa [Programs.owned_coe_add, hoverdrawn, Nat.zero_add]
  · rwa [Programs.owned_coe_add, hoverdrawn, Nat.zero_add]
  · rw [Programs.owned_coe_add, hkeepers]
    exact hkeeper
  · rw [Programs.owned_coe_add, hfrees, hnone]
    exact hobject

theorem Counted.grabUnlock {ref : Int32} (h : Counted w (.grabUnlock ref ::ₘ rest)) (hpos : 0 < ref) :
  Counted { w.touch with lock := w.lock.runlock, pointers := w.pointers + 1 } (↑[Instr.writer] + rest)
  := by
  have hlock := h.lock (h.alive (by simp)).2.2.1
  simp only [Programs.owned_cons, Instr.added, Instr.waiting, Instr.readers, Instr.writers, Nat.zero_add,
    Nat.add_comm 1] at hlock
  refine h.unlock_alive (by simp) ?_ ?_ ?_ ?_ ?_ ?_ ?_
  · simpa using hlock.runlock
  · simp
    omega
  · simp
  · simp
  · simp
  · rw [Instr.overdrawn, if_pos hpos]
  · simp

theorem Counted.updateUnlock {oldcopy : Option ℕ} (h : Counted w (.updateUnlock oldcopy ::ₘ rest)) :
  Counted { w.touch with lock := w.lock.wunlock } (↑[Instr.releaseCopy oldcopy, .writer] + rest)
  := by
  have hlock := h.lock (h.alive (by simp)).2.2.1
  simp only [Programs.owned_cons, Instr.added, Instr.waiting, Instr.readers, Instr.writers, Nat.zero_add,
    Nat.add_comm 1] at hlock
  refine h.unlock_alive (by simp) ?_ ?_ ?_ ?_ ?_ rfl ?_
  · simpa using hlock.wunlock
  · simp
  · simp
  · simp
  · simp
  · simp

theorem Counted.copyUnlock {ret : Option ℕ} {box : BoxReader} (h : Counted w (.copyUnlock ret box ::ₘ rest)) :
  Counted { w.touch with lock := w.lock.runlock } (↑[Instr.compare ret box] + rest)
  := by
  have hlock := h.lock (h.alive (by simp)).2.2.1
  simp only [Programs.owned_cons, Instr.added, Instr.waiting, Instr.readers, Instr.writers, Nat.zero_add,
    Nat.add_comm 1] at hlock
  refine h.unlock_alive (by simp) ?_ ?_ ?_ ?_ ?_ rfl ?_
  · simpa using hlock.runlock
  · simp
  · simp
  · simp
  · simp
  · simp

/-- Only the thread that has the box of the writer can have found no reference left. -/
theorem overdrawn_eq_zero (h : ∀ j ∈ rest, j.keepers = 0 ∨ j.readers = 0) :
  owned Instr.overdrawn rest = 0
  := by
  apply Programs.owned_eq_zero
  intro j hj
  have hj := h j hj
  cases j <;> simp_all

/-- There is one box of the writer. -/
theorem Counted.alone_of_keeper (h : Counted w (i ::ₘ rest)) (hkeeper : i.keepers = 1) :
  w.copy.isSome = true ∧ ∀ j ∈ rest, j.keepers = 0
  := by
  have hcount := h.keeper
  rw [Programs.owned_cons, hkeeper] at hcount
  split at hcount
  · next hsome => exact ⟨hsome, Programs.eq_zero_of_owned_eq_zero (by omega)⟩
  · omega

/-- The writer finds a reference left, or the references are as many as do not fit an `int`. -/
theorem Counted.grabReference (h : Counted w (.grabReference ::ₘ rest)) :
  Counted { w.touch.overflow w.reference with reference := w.reference + 1 }
    (↑[Instr.grabUnlock w.reference] + rest)
  := by
  obtain ⟨hmade, hpos, hobject, hnone⟩ := h.alive (by simp)
  have hlock := h.lock hobject
  have hreference := h.reference
  have hbounded := h.bounded
  have hoverflow := h.overflow
  have hkeeper := h.keeper
  have hoverdrawn := overdrawn_eq_zero fun j hj => .inl ((h.alone_of_keeper rfl).2 j hj)
  simp only [Programs.owned_cons, Instr.added, Instr.waiting, Instr.readers, Instr.writers, Instr.overdrawn,
    hoverdrawn, Nat.add_zero] at hlock hbounded hoverflow
  rw [Programs.owned_cons] at hreference hkeeper
  have hcount : count (w.reference + 1) = count w.reference + 1 := Counts.count_add_one (by omega)
  refine Counted.of_alive hmade ?_ ?_ ?_ ?_ ?_ ?_ ?_ (fits_replace h.fits ?_)
  · rw [hcount]
    exact Nat.succ_pos _
  · simpa [Node.overflow] using hlock
  · rw [hcount]
    simp [Node.overflow] at hreference ⊢
    omega
  · rw [hcount, Programs.owned_coe_add, hoverdrawn]
    simp only [List.map_cons, List.map_nil, List.sum_cons, List.sum_nil, Instr.overdrawn, Counts.pos_iff]
    split <;> omega
  · rw [hcount, Programs.owned_coe_add, hoverdrawn]
    simp only [List.map_cons, List.map_nil, List.sum_cons, List.sum_nil, Instr.overdrawn, Counts.pos_iff]
    intro hlarge
    rw [Node.overflow, Bool.or_eq_true, decide_eq_true_eq]
    rcases Nat.lt_or_ge (count w.reference) (2 ^ 31) with hlt | hge
    · right
      rw [if_pos ⟨hpos, hlt⟩] at hlarge
      exact Counts.eq_maxValue (by omega)
    · exact .inl (hoverflow (.inl hge))
  · simpa [Node.overflow] using hkeeper
  · simp [Node.overflow, hobject, hnone]
  · simp

theorem Counted.clearCopy (h : Counted w (.clearCopy ::ₘ rest)) :
  Counted { w.touch with copy := none } (↑[Instr.releaseReference] + rest)
  := by
  obtain ⟨hmade, hpos, hobject, hnone⟩ := h.alive (by simp)
  have hlock := h.lock hobject
  have hreference := h.reference
  have hbounded := h.bounded
  have hoverflow := h.overflow
  have hkeeper := h.keeper
  simp only [Programs.owned_cons, Instr.added, Instr.waiting, Instr.readers, Instr.writers] at hlock
  rw [Programs.owned_cons] at hreference hbounded hoverflow hkeeper
  refine Counted.of_alive hmade hpos ?_ ?_ ?_ ?_ ?_ ?_ (fits_replace h.fits ?_)
  · simpa using hlock
  · simpa using hreference
  · simpa using hbounded
  · simpa using hoverflow
  · have hone : (if w.copy.isSome = true then 1 else 0) ≤ 1 := by split <;> decide
    simp at hkeeper ⊢
    omega
  · simp [hobject, hnone]
  · simp

/-- The reference of a thread that has the lock is given up; when it is the last one, the thread frees the object. -/
theorem Counted.release {j : Instr} (h : Counted w (i ::ₘ rest)) (hi : i.references = 1)
    (hj : j.references = 0) (hsame : ∀ f ∈ [Instr.added, Instr.waiting, Instr.readers, Instr.writers, Instr.keepers,
      Instr.overdrawn], f j = f i) (hfrees : j.frees = if count w.reference = 1 then 1 else 0) (hfits : j.Fits) :
  Counted { w.touch with reference := w.reference - 1 } (j ::ₘ rest)
  := by
  obtain ⟨hmade, hpos, hobject, hnone⟩ := h.alive (by omega)
  have hlock := h.lock hobject
  have hreference := h.reference
  have hbounded := h.bounded
  have hoverflow := h.overflow
  have hkeeper := h.keeper
  have hcount : count (w.reference - 1) = count w.reference - 1 := Counts.count_sub_one hpos
  simp only [Programs.owned_cons] at hlock hreference hbounded hoverflow hkeeper
  constructor
  · exact fun hne => absurd (hmade.symm.trans hne) (by decide)
  · intro _
    rw [Programs.owned_cons, Programs.owned_cons, Programs.owned_cons, Programs.owned_cons,
      hsame Instr.added (by simp), hsame Instr.waiting (by simp), hsame Instr.readers (by simp),
      hsame Instr.writers (by simp)]
    exact hlock
  · rw [Programs.owned_cons, hcount, hj]
    simp only [touch_fields]
    omega
  · rw [Programs.owned_cons, hcount, hsame Instr.overdrawn (by simp)]
    omega
  · rw [Programs.owned_cons, hcount, hsame Instr.overdrawn (by simp)]
    exact fun hlarge => hoverflow (hlarge.imp_left fun hge => by omega)
  · rwa [Programs.owned_cons, hsame Instr.keepers (by simp)]
  · rw [Programs.owned_cons, hfrees, hnone, hcount]
    by_cases hone : count w.reference = 1
    · rw [if_pos hone, if_pos ⟨hmade, by omega⟩]
      change w.objectFrees + _ = _
      omega
    · rw [if_neg hone, if_neg fun hdead => hone (by omega)]
      change w.objectFrees + _ = _
      omega
  · exact fun hfreed => absurd hobject hfreed
  · intro k hk
    rcases Multiset.mem_cons.mp hk with rfl | hk
    · exact hfits
    · exact h.fits k (Multiset.mem_cons_of_mem hk)

/-- An instruction that stands for nothing is added. -/
theorem Counted.cons {j : Instr} (h : Counted w todo) (hj : SameCounts j []) (hfits : j.Fits) :
  Counted w (j ::ₘ todo)
  := by
  obtain ⟨hunmade, hlock, hreference, hbounded, hoverflow, hkeeper, hobject, hunlocks, hold⟩ := h
  have howned (f : Instr → ℕ)
      (hf : f ∈ [Instr.added, Instr.waiting, Instr.readers, Instr.writers, Instr.references, Instr.keepers,
        Instr.unlocks, Instr.frees, Instr.overdrawn]) : owned f (j ::ₘ todo) = owned f todo := by
    rw [Programs.owned_cons, ← hj f hf]
    apply Nat.zero_add
  constructor
  · exact hunmade
  · rwa [howned _ (by simp), howned _ (by simp), howned _ (by simp), howned _ (by simp)]
  · rwa [howned _ (by simp)]
  · rwa [howned _ (by simp)]
  · rwa [howned _ (by simp)]
  · rwa [howned _ (by simp)]
  · rwa [howned _ (by simp)]
  · rwa [howned _ (by simp)]
  · intro k hk
    rcases Multiset.mem_cons.mp hk with rfl | hk
    · exact hfits
    · exact hold k hk

/-- Besides a thread that has the lock as a writer nobody has it. -/
theorem Counted.alone_of_writer (h : Counted w (i ::ₘ rest)) (hi : w.objectFrees = 0) (hwriter : i.writers = 1) :
  ∀ j ∈ rest, j.readers = 0 ∧ j.writers = 0
  := by
  have hlock := h.lock hi
  have hone := hlock.writers_le_one
  have hexclusive := hlock.exclusive
  rw [Programs.owned_cons, Programs.owned_cons, hwriter] at hexclusive
  rw [Programs.owned_cons, Programs.owned_cons, hwriter] at hone
  intro j hj
  constructor
  · exact Programs.eq_zero_of_owned_eq_zero (by omega) j hj
  · exact Programs.eq_zero_of_owned_eq_zero (by omega) j hj

theorem Counted.unlocks_of_writer (h : Counted w (i ::ₘ rest)) (hi : w.objectFrees = 0) (hwriter : i.writers = 1) :
  owned Instr.unlocks rest = 0
  := by
  apply Programs.owned_eq_zero
  intro j hj
  obtain ⟨hreaders, hwriters⟩ := h.alone_of_writer hi hwriter j hj
  cases j <;> simp_all

/-- When a reader frees the object, another reader has still to unlock precisely if `read` counts one. -/
theorem Counted.unlocks_iff (h : Counted w (.readerFree ::ₘ rest)) :
  owned Instr.unlocks rest = 0 ↔ w.lock.read = 1
  := by
  obtain ⟨halive, hfrees, hzero⟩ := h.alive_of_frees rfl
  obtain ⟨hread, -, hexclusive⟩ := h.lock halive
  have hreference := h.reference
  rw [Programs.owned_cons] at hreference
  rw [Programs.owned_cons, Programs.owned_cons] at hexclusive hread
  simp only [Instr.readers, Instr.writers, Instr.added, Instr.references] at hexclusive hread hreference
  push_cast at hread
  -- Nobody has a reference, so whoever else is counted has still to unlock.
  have hreferences : owned Instr.references rest = 0 := by omega
  have hnone := Programs.eq_zero_of_owned_eq_zero hreferences
  have hnofree := Programs.eq_zero_of_owned_eq_zero hfrees
  have hwriters : owned Instr.writers rest = 0 := by omega
  have hadded : owned Instr.added rest = 0 := by
    apply Programs.owned_eq_zero
    intro j hj
    have hj := hnone j hj
    cases j <;> simp_all
  have hunlocks : owned Instr.unlocks rest = owned Instr.readers rest := by
    unfold Programs.owned
    congr 1
    apply Multiset.map_congr rfl
    intro j hj
    have hwriter := Programs.eq_zero_of_owned_eq_zero hwriters j hj
    have hfree := hnofree j hj
    have hj := hnone j hj
    cases j <;> simp_all
  omega

/-- The writer gives up its reference. -/
theorem Counted.releaseReference (h : Counted w (.releaseReference ::ₘ rest)) :
  Counted { w.touch with reference := w.reference - 1 }
    (↑[if 0 < w.reference - 1 then Instr.releaseUnlock else .releaseFree] + rest)
  := by
  obtain ⟨-, hpos, hobject, -⟩ := h.alive (by simp)
  -- No other thread is inside, so there is none that has found no reference left.
  have hoverdrawn := overdrawn_eq_zero fun j hj => .inr (h.alone_of_writer hobject rfl j hj).1
  have hbounded := h.bounded
  rw [Programs.owned_cons, hoverdrawn] at hbounded
  have hnone : Instr.releaseReference.overdrawn = 0 := rfl
  have hleft : 0 < w.reference - 1 ↔ count w.reference ≠ 1 := by
    rw [Counts.pos_iff, Counts.count_sub_one hpos]
    omega
  rw [Multiset.coe_singleton, Multiset.singleton_add]
  split
  · next hsome =>
      apply h.release (by simp) (by simp) _ _ (by simp)
      · intro f hf
        simp only [List.mem_cons, List.not_mem_nil, or_false] at hf
        obtain rfl | rfl | rfl | rfl | rfl | rfl := hf <;> rfl
      · rw [if_neg (hleft.mp hsome)]
        rfl
  · next hlast =>
      apply h.release (by simp) (by simp) _ _ (by simp)
      · intro f hf
        simp only [List.mem_cons, List.not_mem_nil, or_false] at hf
        obtain rfl | rfl | rfl | rfl | rfl | rfl := hf <;> rfl
      · rw [if_pos (not_not.mp fun hne => hlast (hleft.mpr hne))]
        rfl

/-- A reader gives up its reference. -/
theorem Counted.readerReference {box : BoxReader} (h : Counted w (.readerReference box ::ₘ rest)) :
  Counted { w.touch with reference := w.reference - 1 }
    (↑[if w.reference - 1 = 0 then Instr.readerFree else .readerUnlock, .releaseCopy box.lastcopy] + rest)
  := by
  obtain ⟨-, hpos, -, -⟩ := h.alive (by simp)
  have h' : Counted w (.readerReference box ::ₘ .releaseCopy box.lastcopy ::ₘ rest) := by
    rw [Multiset.cons_swap]
    exact h.cons (by simp [SameCounts]) (by simp)
  rw [← Multiset.cons_coe, Multiset.cons_add, Multiset.coe_singleton, Multiset.singleton_add]
  split
  · next hlast =>
      apply h'.release (by simp) (by simp) _ _ (by simp)
      · intro f hf
        simp only [List.mem_cons, List.not_mem_nil, or_false] at hf
        obtain rfl | rfl | rfl | rfl | rfl | rfl := hf <;> rfl
      · rw [if_pos ((Counts.sub_one_eq_zero hpos).mp hlast)]
        rfl
  · next hleft =>
      apply h'.release (by simp) (by simp) _ _ (by simp)
      · intro f hf
        simp only [List.mem_cons, List.not_mem_nil, or_false] at hf
        obtain rfl | rfl | rfl | rfl | rfl | rfl := hf <;> rfl
      · rw [if_neg fun hone => hleft ((Counts.sub_one_eq_zero hpos).mpr hone)]
        rfl

/-- The object is freed, and nobody else has still to unlock. -/
theorem Counted.free (h : Counted w (i ::ₘ rest)) (hi : i.frees = 1) (hrest : owned Instr.unlocks rest = 0) :
  Counted { w.touch with objectFrees := w.objectFrees + 1 } rest
  := by
  have hzero : i.references = 0 ∧ i.keepers = 0 ∧ i.overdrawn = 0 := by
    cases i <;> simp at hi <;> simp
  obtain ⟨hunmade, hlock, hreference, hbounded, hoverflow, hkeeper, hobject, hunlocks, hfits⟩ := h
  simp only [Programs.owned_cons, hzero, hi, Nat.zero_add] at hreference hbounded hoverflow hkeeper hobject
  constructor
  · exact hunmade
  · exact fun halive => absurd halive (Nat.succ_ne_zero _)
  · exact hreference
  · exact hbounded
  · exact hoverflow
  · exact hkeeper
  · refine Eq.trans ?_ hobject
    change w.objectFrees + 1 + _ = _
    omega
  · exact fun _ => hrest
  · exact fun j hj => hfits j (Multiset.mem_cons_of_mem hj)

/-- A thread that has given up its reference unlocks. -/
theorem Counted.unlock_dead {lock : Rwlock} (h : Counted w (i ::ₘ rest)) (hi : i.unlocks = 1)
    (hmade : w.made = true)
    (hlock : lock.Inv (owned Instr.added rest) (owned Instr.waiting rest) (owned Instr.readers rest)
      (owned Instr.writers rest)) :
  Counted { w.touch with lock := lock } rest
  := by
  have halive := h.alive_of_unlocks (Nat.lt_of_lt_of_eq Nat.one_pos hi.symm)
  have hzero : i.references = 0 ∧ i.keepers = 0 ∧ i.frees = 0 ∧ i.overdrawn = 0 := by
    cases i <;> simp at hi <;> simp
  obtain ⟨hunmade, -, hreference, hbounded, hoverflow, hkeeper, hobject, -, hfits⟩ := h
  simp only [Programs.owned_cons, hzero, Nat.zero_add] at hreference hbounded hoverflow hkeeper hobject
  constructor
  · exact fun hne => absurd (hmade.symm.trans hne) (by decide)
  · exact fun _ => hlock
  · exact hreference
  · exact hbounded
  · exact hoverflow
  · exact hkeeper
  · exact hobject
  · exact fun hfreed => absurd halive hfreed
  · exact fun j hj => hfits j (Multiset.mem_cons_of_mem hj)

/-- Before the object is made nobody has anything of it. -/
theorem Counted.made_of_inside (h : Counted w (i ::ₘ rest)) (halive : w.objectFrees = 0)
    (hi : 0 < i.readers + i.writers) :
  w.made = true
  := by
  by_contra hne
  obtain ⟨hinit, -⟩ := h.unmade (Bool.eq_false_of_not_eq_true hne)
  obtain ⟨hread, hwrite, -⟩ := h.lock halive
  rw [hinit, Programs.owned_cons, Programs.owned_cons] at hread hwrite
  simp only [Rwlock.init] at hread hwrite
  push_cast at hread
  simp only [Bool.false_eq_true, if_false] at hwrite
  omega

theorem Counted.releaseUnlock (h : Counted w (.releaseUnlock ::ₘ rest)) :
  Counted { w.touch with lock := w.lock.wunlock } rest
  := by
  have halive := h.alive_of_unlocks Nat.one_pos
  apply h.unlock_dead rfl (h.made_of_inside halive (by simp))
  have hlock := h.lock halive
  simp only [Programs.owned_cons, Instr.added, Instr.waiting, Instr.readers, Instr.writers, Nat.zero_add,
    Nat.add_comm 1] at hlock
  exact hlock.wunlock

theorem Counted.readerUnlock (h : Counted w (.readerUnlock ::ₘ rest)) :
  Counted { w.touch with lock := w.lock.runlock } rest
  := by
  have halive := h.alive_of_unlocks Nat.one_pos
  apply h.unlock_dead rfl (h.made_of_inside halive (by simp))
  have hlock := h.lock halive
  simp only [Programs.owned_cons, Instr.added, Instr.waiting, Instr.readers, Instr.writers, Nat.zero_add,
    Nat.add_comm 1] at hlock
  exact hlock.runlock

theorem Counted.newWriter {msg : List UInt8} (h : Counted w (.newWriter ::ₘ rest)) (hmade : w.made = false) :
  Counted (w.new msg) (↑[Instr.writer] + rest)
  := by
  obtain ⟨hunmade, hlock, hreference, hbounded, hoverflow, hkeeper, hobject, hunlocks, hfits⟩ := h
  obtain ⟨hinit, hzero⟩ := hunmade hmade
  have hne : ¬ w.made = true := by rw [hmade]; decide
  rw [if_neg fun hdead => hne hdead.1, Programs.owned_cons] at hobject
  have hlock := hlock (by omega)
  rw [hzero, Counts.count_zero, Programs.owned_cons] at hreference
  rw [Programs.owned_cons] at hkeeper hoverflow
  have hreferences : owned Instr.references rest = 0 ∧ w.pointers = 0 := by
    constructor <;> omega
  have hkeepers : owned Instr.keepers rest = 0 := keepers_eq_zero hreferences.1
  refine Counted.of_alive rfl Nat.one_pos ?_ ?_ ?_ ?_ ?_ ?_ (fits_replace hfits ?_)
  · simpa [Node.new, hinit] using hlock
  · simp [Node.new, Node.newCopy, hreferences]
  · simp [Node.new, Node.newCopy]
    omega
  · intro hlarge
    exact hoverflow (.inr (by simpa [Node.new, Node.newCopy] using hlarge))
  · simp [Node.new, hkeepers]
  · simp [Node.new, Node.newCopy]
    simp at hobject
    omega
  · simp

/-- Every instruction keeps the counts, as long as the last reader is alone. -/
theorem Counted.execute (h : Counted w (i ::ₘ rest)) (hok : LastAlone w i)
    (hexecute : w.perform r i = some (w', js)) :
  Counted w' (↑js + rest)
  := by
  cases i with
  | newWriter =>
      cases r with
      | update msg =>
          rw [Node.perform] at hexecute
          split at hexecute
          · cases hexecute
          · next hmade =>
              obtain ⟨rfl, rfl⟩ := Prod.mk.inj (Option.some.inj hexecute)
              exact h.newWriter (Bool.eq_false_of_not_eq_true hmade)
      | _ => cases hexecute
  | newReader => exact h.newReader hexecute
  | writer => exact h.box hexecute (.inl rfl)
  | reader box => exact h.box hexecute (.inr ⟨box, rfl⟩)
  | acquire a s => exact h.acquire hexecute
  | grabReference =>
      obtain ⟨rfl, rfl⟩ := Prod.mk.inj (Option.some.inj hexecute)
      exact h.grabReference
  | grabUnlock ref =>
      rw [Node.perform] at hexecute
      split at hexecute <;> obtain ⟨rfl, rfl⟩ := Prod.mk.inj (Option.some.inj hexecute)
      · next hpos => exact h.grabUnlock hpos
      · exact h.abort true
  | swap c =>
      obtain ⟨rfl, rfl⟩ := Prod.mk.inj (Option.some.inj hexecute)
      exact h.swap
  | updateUnlock oldcopy =>
      obtain ⟨rfl, rfl⟩ := Prod.mk.inj (Option.some.inj hexecute)
      exact h.updateUnlock
  | releaseCopy copy =>
      have heq := Option.some.inj hexecute
      obtain ⟨hsame, hfits⟩ := sameCounts_releaseCopy (w := w) copy
      have hobject := SameObject.releaseCopy w copy
      rw [heq] at hsame hfits hobject
      exact h.pass hobject hsame hfits
  | freeCopy c =>
      obtain ⟨rfl, rfl⟩ := Prod.mk.inj (Option.some.inj hexecute)
      exact h.pass ⟨rfl, rfl, rfl, rfl, rfl, rfl, id⟩ (by simp [SameCounts]) (by simp)
  | releaseLast =>
      obtain ⟨rfl, rfl⟩ := Prod.mk.inj (Option.some.inj hexecute)
      exact h.releaseLast
  | clearCopy =>
      obtain ⟨rfl, rfl⟩ := Prod.mk.inj (Option.some.inj hexecute)
      exact h.clearCopy
  | releaseReference =>
      obtain ⟨rfl, rfl⟩ := Prod.mk.inj (Option.some.inj hexecute)
      exact h.releaseReference
  | releaseUnlock =>
      obtain ⟨rfl, rfl⟩ := Prod.mk.inj (Option.some.inj hexecute)
      rw [Multiset.coe_nil, Multiset.zero_add]
      exact h.releaseUnlock
  | releaseFree =>
      obtain ⟨rfl, rfl⟩ := Prod.mk.inj (Option.some.inj hexecute)
      rw [Multiset.coe_nil, Multiset.zero_add]
      exact h.free rfl (h.unlocks_of_writer (h.alive_of_frees rfl).1 rfl)
  | loadCopy box =>
      obtain ⟨rfl, rfl⟩ := Prod.mk.inj (Option.some.inj hexecute)
      apply h.pass (.touch w)
      · cases w.copy <;> simp [SameCounts]
      · cases w.copy <;> simp
  | grabCopy c box =>
      rw [Node.perform] at hexecute
      split at hexecute <;> obtain ⟨rfl, rfl⟩ := Prod.mk.inj (Option.some.inj hexecute)
      · refine h.pass ⟨rfl, rfl, rfl, rfl, rfl, rfl, fun hw => ?_⟩ (by simp [SameCounts]) (by simp)
        exact Bool.or_eq_true_iff.mpr (.inl hw)
      · exact h.pass ⟨rfl, rfl, rfl, rfl, rfl, rfl, id⟩ (by simp [SameCounts]) (by simp)
  | copyUnlock ret box =>
      obtain ⟨rfl, rfl⟩ := Prod.mk.inj (Option.some.inj hexecute)
      exact h.copyUnlock
  | compare copy box =>
      obtain ⟨rfl, rfl⟩ := Prod.mk.inj (Option.some.inj hexecute)
      apply h.pass (.refl w)
      · split <;> simp [SameCounts]
      · split <;> simp
  | deliver copy seen =>
      cases copy with
      | none =>
          obtain ⟨rfl, rfl⟩ := Prod.mk.inj (Option.some.inj hexecute)
          exact h.pass (.refl w) (by simp [SameCounts]) (by simp)
      | some c =>
          obtain ⟨rfl, rfl⟩ := Prod.mk.inj (Option.some.inj hexecute)
          exact h.pass ⟨rfl, rfl, rfl, rfl, rfl, rfl, id⟩ (by simp [SameCounts]) (by simp)
  | readerReference box =>
      obtain ⟨rfl, rfl⟩ := Prod.mk.inj (Option.some.inj hexecute)
      exact h.readerReference
  | readerUnlock =>
      obtain ⟨rfl, rfl⟩ := Prod.mk.inj (Option.some.inj hexecute)
      rw [Multiset.coe_nil, Multiset.zero_add]
      exact h.readerUnlock
  | readerFree =>
      rw [Node.perform] at hexecute
      split at hexecute <;> obtain ⟨rfl, rfl⟩ := Prod.mk.inj (Option.some.inj hexecute)
      · rw [Multiset.coe_nil, Multiset.zero_add]
        exact h.free rfl (h.unlocks_iff.mpr hok)
      · exact h.abort true

end

end Stm

end Skynet
