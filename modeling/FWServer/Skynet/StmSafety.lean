import FWServer.Skynet.StmCopies

/-!
# Shared objects are safe

In every order of the steps, and for any number of readers, the object and its copies are freed once at the most and
are not touched afterwards, and no assertion fails for another reason than an overflow, precisely as long as no reader
frees the object while another reader has given up its reference and has still to unlock (`safe_iff_guarded`).  When
all are done nothing is left, and every reader has been given the copies in the order of the updates
(`reads_and_frees`).
-/

namespace Skynet

namespace Stm

open Programs (owned)

section

variable {w w' : Node} {todo rest : Multiset Instr} {i : Instr} {js : List Instr} {r : Action} {c : ℕ}

/-! ### What an instruction keeps -/

/-- An object that nobody has has no copy. -/
theorem Counted.copy_of_references (h : Counted w todo) (hnone : owned Instr.references todo = 0) :
  w.copy = none
  := by
  have hkeeper := h.keeper
  rw [keepers_eq_zero hnone] at hkeeper
  cases hcopy : w.copy with
  | none => rfl
  | some c => simp [hcopy] at hkeeper

/-- A thread without a reference knows nothing of the order. -/
theorem Instr.ordered_of_references (h : i.references = 0) :
  i.Ordered w
  := by
  cases i with
  | reader box => cases h
  | acquire a s => cases h
  | swap d => cases h
  | loadCopy box => cases h
  | grabCopy c box => cases h
  | copyUnlock ret box => cases h
  | compare ret box => cases h
  | deliver ret seen => cases h
  | readerReference box => cases h
  | _ => trivial

theorem Copied.newWriter {msg : List UInt8} (h : Copied w (.newWriter ::ₘ rest)) (hnone : w.copy = none)
    (hrest : ∀ j ∈ rest, j.references = 0) :
  Copied (w.new msg) (↑[Instr.writer] + rest)
  := by
  have hzero (j : Instr) (hj : j ∈ rest) : j.keepers = 0 ∧ j.clears = 0 := by
    have hj := hrest j hj
    cases j <;> simp_all
  have hclears : owned Instr.clears rest = 0 := Programs.owned_eq_zero _ fun j hj => (hzero j hj).2
  have hnew : Copied (w.newCopy msg) (↑[Instr.releaseCopy (some w.copies)] + rest) := by
    apply h.newCopy (fun _ => rfl) rfl (fun _ => rfl) (fun j hj => (hzero j hj).1) _ (fun _ => rfl) rfl (fun _ => rfl)
    intro j hj
    rw [List.mem_singleton.mp hj]
    trivial
  -- The reference of the new copy is the one of the object.
  constructor
  · intro c
    have hc := hnew.reference c
    have hcopy : (w.newCopy msg).copy = none := hnone
    rw [Programs.owned_coe_add, Programs.owned_coe_add, hclears, hcopy] at hc
    rw [Programs.owned_coe_add, Programs.owned_coe_add, hclears]
    refine Eq.trans hc ?_
    simp [anchored, Node.new, single, Nat.add_comm]
  · exact hnew.bounded
  · exact hnew.overflow
  · exact hnew.fresh
  · intro c
    have hc := hnew.frees c
    rw [Programs.owned_coe_add] at hc ⊢
    exact hc
  · intro c hc
    obtain rfl := Option.some.inj hc
    exact Nat.lt_succ_self _
  · intro j hj
    rcases Multiset.mem_add.mp hj with hj | hj
    · rw [List.mem_singleton.mp hj]
      trivial
    · exact Instr.ordered_of_references (hrest j hj)

/-- What a reader finds in the object is the newest copy. -/
theorem ordered_loadCopy {box : BoxReader} (h : box.Fine w) :
  (match w.copy with
    | none => Instr.copyUnlock none box
    | some c => .grabCopy c box).Ordered w
  := by
  cases hcopy : w.copy with
  | none => exact ⟨h, hcopy⟩
  | some c => exact ⟨h, hcopy⟩

theorem Copied.acquire {a : Rwlock.Acquire} {s : Section} (h : Copied w (.acquire a s ::ₘ rest))
    (hexecute : w.perform r (.acquire a s) = some (w', js)) :
  Copied w' (↑js + rest)
  := by
  have hown := h.ordered _ (Multiset.mem_cons_self _ _)
  rw [Node.perform] at hexecute
  rcases hacquire : w.lock.acquire a with ⟨lock', _ | a'⟩ <;> rw [hacquire] at hexecute <;>
    obtain ⟨rfl, rfl⟩ := Prod.mk.inj (Option.some.inj hexecute)
  · refine h.pass ⟨rfl, rfl, rfl, rfl, id⟩ ?_ ?_ ?_ ?_
    · cases s <;> simp [Node.enter]
    · cases s <;> simp [Node.enter]
    · cases s <;> simp [Node.enter]
    · intro j hj
      rw [List.mem_singleton.mp hj]
      cases s with
      | copy box => exact hown
      | releaseReader box => exact hown
      | update d => exact hown
      | _ => trivial
  · refine h.pass ⟨rfl, rfl, rfl, rfl, id⟩ ?_ ?_ ?_ ?_
    · cases s <;> simp
    · simp
    · simp
    · intro j hj
      rw [List.mem_singleton.mp hj]
      cases s with
      | copy box => exact hown
      | releaseReader box => exact hown
      | update d => exact hown
      | _ => trivial

/-- What a service does with its box. -/
theorem Copied.box (h : Copied w (i ::ₘ rest)) (hcounted : Counted w (i ::ₘ rest))
    (hexecute : w.perform r i = some (w', js)) (hi : i = .writer ∨ ∃ box, i = .reader box) :
  Copied w' (↑js + rest)
  := by
  have hown := h.ordered i (Multiset.mem_cons_self _ _)
  obtain rfl | ⟨box, rfl⟩ := hi
  · cases r with
    | copy =>
        obtain ⟨rfl, rfl⟩ := Prod.mk.inj (Option.some.inj hexecute)
        exact h.pass ⟨rfl, rfl, rfl, rfl, id⟩ (by simp) (by simp) (by simp) (by simp [Instr.Ordered])
    | update msg =>
        obtain ⟨rfl, rfl⟩ := Prod.mk.inj (Option.some.inj hexecute)
        apply h.newCopy (fun _ => rfl) rfl (fun _ => rfl) (hcounted.alone_of_keeper rfl).2 _ (by simp) (by simp)
          (by simp)
        intro j hj
        rw [List.mem_singleton.mp hj]
        exact ⟨rfl, h.copy_lt⟩
    | read => cases hexecute
    | delete =>
        rw [Node.perform] at hexecute
        split at hexecute <;> obtain ⟨rfl, rfl⟩ := Prod.mk.inj (Option.some.inj hexecute)
        · exact h.pass ⟨rfl, rfl, rfl, rfl, id⟩ (by simp) (by simp) (by simp) (by simp [Instr.Ordered])
        · exact h.abort ⟨rfl, rfl, rfl, rfl, id⟩
  · cases r <;> simp only [Node.perform, reduceCtorEq, Option.some.injEq, Prod.mk.injEq] at hexecute <;>
      obtain ⟨rfl, rfl⟩ := hexecute
    · exact h.pass ⟨rfl, rfl, rfl, rfl, id⟩ (by simp) (by simp) (by simp) (by simpa [Instr.Ordered] using hown)
    · exact h.pass ⟨rfl, rfl, rfl, rfl, id⟩ (by simp) (by simp) (by simp) (by simpa [Instr.Ordered] using hown)

/-- Every instruction keeps the references of the copies. -/
theorem Copied.execute (h : Copied w (i ::ₘ rest)) (hcounted : Counted w (i ::ₘ rest))
    (hexecute : w.perform r i = some (w', js)) :
  Copied w' (↑js + rest)
  := by
  have hown := h.ordered i (Multiset.mem_cons_self _ _)
  cases i with
  | newWriter =>
      cases r with
      | update msg =>
          rw [Node.perform] at hexecute
          split at hexecute
          · cases hexecute
          · next hmade =>
              obtain ⟨rfl, rfl⟩ := Prod.mk.inj (Option.some.inj hexecute)
              have hzero := (hcounted.unmade (Bool.eq_false_of_not_eq_true hmade)).2
              have hreference := hcounted.reference
              rw [hzero, Counts.count_zero] at hreference
              have hreferences : owned Instr.references (.newWriter ::ₘ rest) = 0 := by omega
              apply h.newWriter (hcounted.copy_of_references hreferences)
              rw [Programs.owned_cons] at hreferences
              exact Programs.eq_zero_of_owned_eq_zero (by omega)
      | _ => cases hexecute
  | newReader =>
      rw [Node.perform] at hexecute
      split at hexecute
      · cases hexecute
      · obtain ⟨rfl, rfl⟩ := Prod.mk.inj (Option.some.inj hexecute)
        refine h.pass ⟨rfl, rfl, rfl, rfl, id⟩ (by simp [single]) (by simp) (by simp) ?_
        intro j hj
        rw [List.mem_singleton.mp hj]
        exact ⟨List.Pairwise.nil, fun c hc => absurd hc List.not_mem_nil, .inl rfl⟩
  | writer => exact h.box hcounted hexecute (.inl rfl)
  | reader box => exact h.box hcounted hexecute (.inr ⟨box, rfl⟩)
  | acquire a s => exact h.acquire hexecute
  | swap c =>
      obtain ⟨rfl, rfl⟩ := Prod.mk.inj (Option.some.inj hexecute)
      exact h.swap hcounted
  | releaseCopy copy =>
      have heq := Option.some.inj hexecute
      have hreleased := h.releaseCopy
      rwa [heq] at hreleased
  | freeCopy c =>
      obtain ⟨rfl, rfl⟩ := Prod.mk.inj (Option.some.inj hexecute)
      rw [Multiset.coe_nil, Multiset.zero_add]
      exact h.freeCopy
  | releaseLast =>
      obtain ⟨rfl, rfl⟩ := Prod.mk.inj (Option.some.inj hexecute)
      exact h.releaseLast hcounted
  | clearCopy =>
      obtain ⟨rfl, rfl⟩ := Prod.mk.inj (Option.some.inj hexecute)
      exact h.clearCopy hcounted
  | releaseReference =>
      obtain ⟨rfl, rfl⟩ := Prod.mk.inj (Option.some.inj hexecute)
      refine h.pass ⟨rfl, rfl, rfl, rfl, id⟩ ?_ ?_ ?_ ?_ <;> split <;> simp [Instr.Ordered]
  | loadCopy box =>
      obtain ⟨rfl, rfl⟩ := Prod.mk.inj (Option.some.inj hexecute)
      refine h.pass ⟨rfl, rfl, rfl, rfl, id⟩ ?_ ?_ ?_ ?_
      · cases w.copy <;> simp [single]
      · cases w.copy <;> simp
      · cases w.copy <;> simp
      · intro j hj
        rw [List.mem_singleton.mp hj]
        exact ordered_loadCopy hown
  | grabUnlock ref =>
      rw [Node.perform] at hexecute
      split at hexecute <;> obtain ⟨rfl, rfl⟩ := Prod.mk.inj (Option.some.inj hexecute)
      · exact h.pass ⟨rfl, rfl, rfl, rfl, id⟩ (by simp) (by simp) (by simp) (by simp [Instr.Ordered])
      · exact h.abort ⟨rfl, rfl, rfl, rfl, id⟩
  | grabReference =>
      obtain ⟨rfl, rfl⟩ := Prod.mk.inj (Option.some.inj hexecute)
      refine h.pass ⟨rfl, rfl, rfl, rfl, fun hw => ?_⟩ (by simp) (by simp) (by simp) (by simp [Instr.Ordered])
      exact Bool.or_eq_true_iff.mpr (.inl hw)
  | grabCopy c box =>
      rw [Node.perform] at hexecute
      split at hexecute <;> obtain ⟨rfl, rfl⟩ := Prod.mk.inj (Option.some.inj hexecute)
      · next hpos => exact h.grabCopy hpos
      · exact h.abort ⟨rfl, rfl, rfl, rfl, id⟩
  | compare copy box =>
      obtain ⟨rfl, rfl⟩ := Prod.mk.inj (Option.some.inj hexecute)
      refine h.pass ⟨rfl, rfl, rfl, rfl, id⟩ ?_ ?_ ?_ (ordered_compare hown)
      · intro c
        split <;> simp [Nat.add_comm]
      · split <;> simp
      · intro c
        split <;> simp
  | deliver copy seen =>
      cases copy with
      | none =>
          obtain ⟨rfl, rfl⟩ := Prod.mk.inj (Option.some.inj hexecute)
          refine h.pass ⟨rfl, rfl, rfl, rfl, id⟩ (by simp) (by simp) (by simp) ?_
          intro j hj
          rw [List.mem_singleton.mp hj]
          exact ⟨hown.2.1, hown.2.2, .inr ⟨rfl, hown.1⟩⟩
      | some c =>
          obtain ⟨rfl, rfl⟩ := Prod.mk.inj (Option.some.inj hexecute)
          refine h.pass ⟨rfl, rfl, rfl, rfl, id⟩ (by simp) (by simp) (by simp) ?_
          intro j hj
          rw [List.mem_singleton.mp hj]
          exact ordered_deliver hown
  | readerReference box =>
      obtain ⟨rfl, rfl⟩ := Prod.mk.inj (Option.some.inj hexecute)
      refine h.pass ⟨rfl, rfl, rfl, rfl, id⟩ ?_ ?_ ?_ ?_ <;> split <;> simp [Instr.Ordered]
  | readerFree =>
      rw [Node.perform] at hexecute
      split at hexecute <;> obtain ⟨rfl, rfl⟩ := Prod.mk.inj (Option.some.inj hexecute)
      · exact h.pass ⟨rfl, rfl, rfl, rfl, id⟩ (by simp) (by simp) (by simp) (by simp)
      · exact h.abort ⟨rfl, rfl, rfl, rfl, id⟩
  | copyUnlock ret box =>
      obtain ⟨rfl, rfl⟩ := Prod.mk.inj (Option.some.inj hexecute)
      exact h.pass ⟨rfl, rfl, rfl, rfl, id⟩ (by simp) (by simp) (by simp) (by simpa [Instr.Ordered] using hown)
  | _ =>
      obtain ⟨rfl, rfl⟩ := Prod.mk.inj (Option.some.inj hexecute)
      exact h.pass ⟨rfl, rfl, rfl, rfl, id⟩ (by simp) (by simp) (by simp) (by simp [Instr.Ordered])

/-! ### What has been freed is not touched -/

theorem Node.touch_of_alive (h : w.objectFrees = 0) :
  w.touch = w
  := by
  cases w
  simp_all [Node.touch]

theorem Node.touchCopy_of_alive (h : w.copyFrees c = 0) :
  w.touchCopy c = w
  := by
  cases w
  simp_all [Node.touchCopy]

/-- While a thread has the object or is about to free it, it has not been freed. -/
theorem Counted.objectFrees_eq_zero (h : Counted w (i ::ₘ rest)) (hi : 0 < i.references + i.unlocks + i.frees) :
  w.objectFrees = 0
  := by
  rcases Nat.eq_zero_or_pos i.references with hzero | hpos
  · rcases Nat.eq_zero_or_pos i.unlocks with hnone | hunlocks
    · have hone : i.frees = 1 := by
        cases i <;> simp at hi hzero hnone <;> simp
      exact (h.alive_of_frees hone).1
    · exact h.alive_of_unlocks hunlocks
  · exact (h.alive hpos).2.2.1

/-- The object that is about to be freed has no copy. -/
theorem Counted.copy_of_frees (h : Counted w (i ::ₘ rest)) (hi : i.frees = 1) :
  w.copy = none
  := by
  have hreference := h.reference
  rw [(h.alive_of_frees hi).2.2] at hreference
  exact h.copy_of_references (by omega)

/-- Nothing is touched after it has been freed. -/
theorem execute_dangling (h : Copied w (i ::ₘ rest)) (hcounted : Counted w (i ::ₘ rest))
    (hexecute : w.perform r i = some (w', js)) :
  w'.dangling = w.dangling
  := by
  have hobject := hcounted.objectFrees_eq_zero (i := i)
  have hlive (d : ℕ) (hd : 0 < i.holds d) : w.copyFrees d = 0 := (h.live (h.reference_pos hd)).2
  cases i with
  | newWriter =>
      cases r with
      | update msg =>
          rw [Node.perform] at hexecute
          split at hexecute
          · cases hexecute
          · obtain ⟨rfl, rfl⟩ := Prod.mk.inj (Option.some.inj hexecute)
            rfl
      | _ => cases hexecute
  | newReader =>
      rw [Node.perform] at hexecute
      split at hexecute
      · cases hexecute
      · obtain ⟨rfl, rfl⟩ := Prod.mk.inj (Option.some.inj hexecute)
        rfl
  | writer =>
      cases r with
      | read => cases hexecute
      | delete =>
          rw [Node.perform, Node.touch_of_alive (hobject (by simp))] at hexecute
          split at hexecute <;> obtain ⟨rfl, rfl⟩ := Prod.mk.inj (Option.some.inj hexecute) <;> rfl
      | _ =>
          obtain ⟨rfl, rfl⟩ := Prod.mk.inj (Option.some.inj hexecute)
          rfl
  | reader box =>
      cases r <;> simp only [Node.perform, reduceCtorEq, Option.some.injEq, Prod.mk.injEq] at hexecute <;>
        obtain ⟨rfl, rfl⟩ := hexecute <;> rfl
  | acquire a s =>
      rw [Node.perform, Node.touch_of_alive (hobject (by simp))] at hexecute
      split at hexecute <;> obtain ⟨rfl, rfl⟩ := Prod.mk.inj (Option.some.inj hexecute) <;> rfl
  | grabUnlock ref =>
      rw [Node.perform, Node.touch_of_alive (hobject (by simp))] at hexecute
      split at hexecute <;> obtain ⟨rfl, rfl⟩ := Prod.mk.inj (Option.some.inj hexecute) <;> rfl
  | releaseCopy copy =>
      cases copy with
      | none =>
          obtain ⟨rfl, rfl⟩ := Prod.mk.inj (Option.some.inj hexecute)
          rfl
      | some d =>
          rw [Node.perform, Node.releaseCopy, Node.touchCopy_of_alive (hlive d (single_pos d))] at hexecute
          obtain ⟨rfl, rfl⟩ := Prod.mk.inj (Option.some.inj hexecute)
          rfl
  | releaseLast =>
      obtain ⟨-, d, hd, hpos⟩ := h.reference_last hcounted
      rw [Node.perform, Node.touch_of_alive (hobject (by simp)), hd, Node.releaseCopy,
        Node.touchCopy_of_alive (h.live hpos).2] at hexecute
      obtain ⟨rfl, rfl⟩ := Prod.mk.inj (Option.some.inj hexecute)
      rfl
  | grabCopy c box =>
      rw [Node.perform, Node.touchCopy_of_alive (h.live (h.reference_grab hcounted)).2] at hexecute
      split at hexecute <;> obtain ⟨rfl, rfl⟩ := Prod.mk.inj (Option.some.inj hexecute) <;> rfl
  | compare copy box =>
      obtain ⟨rfl, rfl⟩ := Prod.mk.inj (Option.some.inj hexecute)
      rfl
  | deliver copy seen =>
      cases copy with
      | none =>
          obtain ⟨rfl, rfl⟩ := Prod.mk.inj (Option.some.inj hexecute)
          rfl
      | some d =>
          rw [Node.perform, Node.touchCopy_of_alive (hlive d (single_pos d))] at hexecute
          obtain ⟨rfl, rfl⟩ := Prod.mk.inj (Option.some.inj hexecute)
          rfl
  | freeCopy d =>
      obtain ⟨rfl, rfl⟩ := Prod.mk.inj (Option.some.inj hexecute)
      rfl
  | readerFree =>
      rw [Node.perform, Node.touch_of_alive (hobject (by simp))] at hexecute
      split at hexecute <;> obtain ⟨rfl, rfl⟩ := Prod.mk.inj (Option.some.inj hexecute) <;> rfl
  | _ =>
      rw [Node.perform, Node.touch_of_alive (hobject (by simp))] at hexecute
      obtain ⟨rfl, rfl⟩ := Prod.mk.inj (Option.some.inj hexecute)
      rfl

/-- No assertion fails, unless there are more references than an `int` counts. -/
theorem execute_aborted (h : Copied w (i ::ₘ rest)) (hcounted : Counted w (i ::ₘ rest))
    (hexecute : w.perform r i = some (w', js)) (haborted : w.aborted = false) (haborted' : w'.aborted = true) :
  w'.overflowed = true
  := by
  have hstays (hsame : w'.aborted = w.aborted) : w'.overflowed = true := by
    rw [hsame, haborted] at haborted'
    cases haborted'
  cases i with
  | newWriter =>
      cases r with
      | update msg =>
          rw [Node.perform] at hexecute
          split at hexecute
          · cases hexecute
          · obtain ⟨rfl, rfl⟩ := Prod.mk.inj (Option.some.inj hexecute)
            exact hstays rfl
      | _ => cases hexecute
  | newReader =>
      rw [Node.perform] at hexecute
      split at hexecute
      · cases hexecute
      · obtain ⟨rfl, rfl⟩ := Prod.mk.inj (Option.some.inj hexecute)
        exact hstays rfl
  | writer =>
      cases r with
      | read => cases hexecute
      | delete =>
          rw [Node.perform, if_pos (hcounted.alone_of_keeper rfl).1] at hexecute
          obtain ⟨rfl, rfl⟩ := Prod.mk.inj (Option.some.inj hexecute)
          exact hstays rfl
      | _ =>
          obtain ⟨rfl, rfl⟩ := Prod.mk.inj (Option.some.inj hexecute)
          exact hstays rfl
  | reader box =>
      cases r <;> simp only [Node.perform, reduceCtorEq, Option.some.injEq, Prod.mk.injEq] at hexecute <;>
        obtain ⟨rfl, rfl⟩ := hexecute <;> exact hstays rfl
  | acquire a s =>
      rw [Node.perform] at hexecute
      split at hexecute <;> obtain ⟨rfl, rfl⟩ := Prod.mk.inj (Option.some.inj hexecute) <;> exact hstays rfl
  | grabUnlock ref =>
      rw [Node.perform] at hexecute
      split at hexecute <;> obtain ⟨rfl, rfl⟩ := Prod.mk.inj (Option.some.inj hexecute)
      · exact hstays rfl
      · next hfails =>
          apply hcounted.overflow
          right
          rw [Programs.owned_cons, Instr.overdrawn, if_neg hfails]
          omega
  | releaseCopy copy =>
      cases copy <;> obtain ⟨rfl, rfl⟩ := Prod.mk.inj (Option.some.inj hexecute) <;> exact hstays rfl
  | releaseLast =>
      obtain ⟨rfl, rfl⟩ := Prod.mk.inj (Option.some.inj hexecute)
      cases hcopy : w.copy <;> rw [hcopy] at hstays <;> exact hstays rfl
  | grabCopy c box =>
      rw [Node.perform] at hexecute
      split at hexecute <;> obtain ⟨rfl, rfl⟩ := Prod.mk.inj (Option.some.inj hexecute)
      · exact hstays rfl
      · next hfails =>
          apply h.overflow c
          have hpos := h.reference_grab hcounted
          rw [Counts.pos_iff] at hfails
          omega
  | deliver copy seen =>
      cases copy <;> obtain ⟨rfl, rfl⟩ := Prod.mk.inj (Option.some.inj hexecute) <;> exact hstays rfl
  | readerFree =>
      have hnone : w.copy.isNone = true := by rw [hcounted.copy_of_frees rfl, Option.isNone_none]
      rw [Node.perform, if_pos hnone] at hexecute
      obtain ⟨rfl, rfl⟩ := Prod.mk.inj (Option.some.inj hexecute)
      exact hstays rfl
  | _ =>
      obtain ⟨rfl, rfl⟩ := Prod.mk.inj (Option.some.inj hexecute)
      exact hstays rfl

/-! ### Whole runs -/

/-- The references of the object and of the copies are as they should be, and nothing has gone wrong. -/
structure Inv (w : Node) (todo : Multiset Instr) : Prop where
  counted : Counted w todo
  copied : Copied w todo
  dangling : w.dangling = false
  aborted : w.aborted = true → w.overflowed = true

theorem Inv.init :
  Inv .init 0
  where
  counted := by
    constructor
    · exact fun _ => ⟨rfl, rfl⟩
    · exact fun _ => .init
    · rfl
    · exact Nat.zero_le _
    · rintro (hlarge | hlarge) <;> exact absurd hlarge (by decide)
    · rfl
    · rfl
    · exact fun _ => rfl
    · exact fun i hi => absurd hi (Multiset.notMem_zero i)
  copied := by
    constructor
    · exact fun _ => rfl
    · exact fun _ => Nat.zero_le _
    · intro c hlarge
      have hzero : 2 ^ 31 ≤ 0 := hlarge
      exact absurd hzero (by decide)
    · exact fun _ _ => rfl
    · exact fun _ => rfl
    · intro c hc
      cases hc
    · exact fun i hi => absurd hi (Multiset.notMem_zero i)
  dangling := rfl
  aborted := Bool.noConfusion

theorem Inv.start (h : Inv w todo) (hi : programs.starts i = true) :
  Inv w (i ::ₘ todo)
  := by
  have hstart : i = .newWriter ∨ i = .newReader := of_decide_eq_true hi
  have hsame : SameCounts i [] ∧ i.Fits ∧ (∀ c, i.holds c = 0) ∧ i.clears = 0 ∧ (∀ c, i.freesCopy c = 0) ∧
      i.Ordered w := by
    obtain rfl | rfl := hstart <;> simp [SameCounts, Instr.Ordered]
  obtain ⟨hcounts, hfits, hholds, hclears, hfrees, hordered⟩ := hsame
  refine ⟨h.counted.cons hcounts hfits, ?_, h.dangling, h.aborted⟩
  obtain ⟨hreference, hbounded, hoverflow, hfresh, hfree, hlt, hold⟩ := h.copied
  constructor
  · intro c
    rw [Programs.owned_cons, Programs.owned_cons, hholds, hclears, Nat.zero_add, Nat.zero_add]
    exact hreference c
  · exact hbounded
  · exact hoverflow
  · exact hfresh
  · intro c
    rw [Programs.owned_cons, hfrees, Nat.zero_add]
    exact hfree c
  · exact hlt
  · intro j hj
    rcases Multiset.mem_cons.mp hj with rfl | hj
    · exact hordered
    · exact hold j hj

theorem Inv.execute (h : Inv w (i ::ₘ rest)) (hok : LastAlone w i)
    (hexecute : programs.execute w r i = some (w', js)) :
  Inv w' (↑js + rest)
  := by
  obtain ⟨haborted, hexecute⟩ := Option.ite_none_left_eq_some.mp hexecute
  refine ⟨h.counted.execute hok hexecute, h.copied.execute h.counted hexecute, ?_, ?_⟩
  · rw [execute_dangling h.copied h.counted hexecute, h.dangling]
  · exact execute_aborted h.copied h.counted hexecute (Bool.eq_false_of_not_eq_true haborted)

/-- The invariant, of a state. -/
def Sound (s : Programs.State Node Instr) : Prop :=
  Inv s.shared s.todo

/-- Nothing has been touched after it has been freed, nothing has been freed twice, no assertion has failed unless
references have overflowed, and no thread has the object when it has been freed. -/
structure Safe (s : Programs.State Node Instr) : Prop where
  dangling : s.shared.dangling = false
  aborted : s.shared.aborted = true → s.shared.overflowed = true
  object : s.shared.objectFrees ≤ 1
  copies : ∀ c, s.shared.copyFrees c ≤ 1
  free : 0 < s.shared.objectFrees → ∀ i ∈ s.todo, i.has = false

theorem Sound.safe {s : Programs.State Node Instr} (h : Sound s) :
  Safe s
  := by
  refine ⟨h.dangling, h.aborted, ?_, ?_, ?_⟩
  · have hobject := h.counted.object
    split at hobject <;> omega
  · intro c
    have hfree := h.copied.frees c
    split at hfree <;> omega
  · intro hfreed i hi
    have hobject := h.counted.object
    split at hobject
    · next hdead =>
        have hreference := h.counted.reference
        rw [hdead.2] at hreference
        have hreferences := Programs.eq_zero_of_owned_eq_zero (f := Instr.references) (by omega) i hi
        have hunlocks := Programs.eq_zero_of_owned_eq_zero (h.counted.unlocks (Nat.ne_of_gt hfreed)) i hi
        rw [Instr.has, hreferences, hunlocks]
        rfl
    · omega

/-- Where no thread has the object when it has been freed, the last reader was alone. -/
theorem Inv.lastAlone (h : Inv w (i ::ₘ rest)) (hexecute : w.perform r i = some (w', js))
    (hfree : 0 < w'.objectFrees → ∀ j ∈ ↑js + rest, j.has = false) :
  LastAlone w i
  := by
  cases i with
  | readerFree =>
      have hnone : w.copy.isNone = true := by rw [h.counted.copy_of_frees rfl, Option.isNone_none]
      rw [Node.perform, if_pos hnone] at hexecute
      obtain ⟨rfl, rfl⟩ := Prod.mk.inj (Option.some.inj hexecute)
      apply h.counted.unlocks_iff.mp
      apply Programs.owned_eq_zero
      intro j hj
      have hnot := hfree (Nat.succ_pos _) j (Multiset.mem_add.mpr (.inr hj))
      rw [Instr.has, decide_eq_false_iff_not] at hnot
      omega
  | _ => trivial

/-- The start of all runs. -/
def start : Programs.State Node Instr :=
  ⟨.init, []⟩

theorem sound_start :
  Sound start
  := .init

section

variable {s s' : Programs.State Node Instr} {l : Programs.Step Instr Action}

/-- A step that meets the guard keeps the invariant. -/
theorem Sound.step (h : Sound s) (hok : Programs.Allows LastAlone s l) (hstep : machine.step s l = some s') :
  Sound s'
  := by
  obtain ⟨i, rfl, hstarts, hshared, htodo⟩ | ⟨n, r, i, js, rest, rfl, hnext, hexecute, htodo, htodo'⟩ :=
    Programs.step_cases hstep
  · rw [Sound, hshared, htodo]
    exact h.start hstarts
  · rw [Sound, htodo] at h
    rw [Sound, htodo']
    exact h.execute (hok i hnext) hexecute

/-- A step to a safe state meets the guard. -/
theorem Sound.allows (h : Sound s) (hstep : machine.step s l = some s') (hsafe : Safe s') :
  Programs.Allows LastAlone s l
  := by
  obtain ⟨i, rfl, -, -, -⟩ | ⟨n, r, i, js, rest, rfl, hnext, hexecute, htodo, htodo'⟩ :=
    Programs.step_cases hstep
  · trivial
  · rw [Sound, htodo] at h
    intro j hj
    obtain rfl := Option.some.inj (hnext.symm.trans hj)
    apply h.lastAlone (Option.ite_none_left_eq_some.mp hexecute).2
    rw [← htodo']
    exact hsafe.free

end

/-- In every run, the object and its copies are freed once at the most and not touched afterwards, no thread has the
object when it has been freed, and no assertion fails unless references have overflowed, precisely if no reader frees
the object while another has still to unlock. -/
theorem safe_iff_guarded (ls : List (Programs.Step Instr Action)) :
  machine.Always Safe start ls ↔ machine.Guarded (Programs.Allows LastAlone) start ls
  := by
  have hexact : machine.Always Sound start ls ↔ machine.Guarded (Programs.Allows LastAlone) start ls := by
    apply Machine.always_iff_guarded _ sound_start
    exact fun s l s' h hstep => ⟨fun h' => h.allows hstep h'.safe, fun hok => h.step hok hstep⟩
  rw [← hexact]
  constructor
  · intro hsafe
    apply hsafe.strengthen _ sound_start
    exact fun s l s' h hstep hs' => h.step (h.allows hstep hs') hstep
  · exact fun hsound => hsound.mono fun s h => h.safe

/-- As long as the guard is met: every reader has been given ever newer copies; and when no thread is left and all
pointers have been taken, the object and all copies have been freed once. -/
theorem reads_and_frees {ls : List (Programs.Step Instr Action)} {s : Programs.State Node Instr}
    (hguarded : machine.Guarded (Programs.Allows LastAlone) start ls) (h : machine.exec start ls = some s) :
  (∀ box, .reader box ∈ s.todo → box.seen.Pairwise (· > ·) ∧ ∀ c ∈ box.seen, c < s.shared.copies) ∧
  (s.todo = 0 → s.shared.pointers = 0 → s.shared.made = true →
    s.shared.objectFrees = 1 ∧ ∀ c < s.shared.copies, s.shared.copyFrees c = 1)
  := by
  have hsound : Sound s := by
    have hreaches : machine.Reaches (Programs.Allows LastAlone) s :=
      Machine.Reaches.exec ls (.init ⟨rfl, rfl⟩) hguarded h
    apply Machine.invariant _ _ hreaches
    · rintro s ⟨hshared, hthreads⟩
      rw [Sound, Programs.State.todo, hshared, hthreads]
      exact .init
    · exact fun s l s' h hok hstep => h.step hok hstep
  obtain ⟨hcounted, hcopied, -, -⟩ := hsound
  constructor
  · intro box hbox
    have hfine : box.Fine s.shared := hcopied.ordered _ hbox
    exact ⟨hfine.sorted, fun c hc => (hfine.below c hc).1⟩
  · intro htodo hpointers hmade
    rw [htodo] at hcounted hcopied
    have hreference := hcounted.reference
    rw [hpointers] at hreference
    have hobject := hcounted.object
    rw [if_pos ⟨hmade, hreference⟩] at hobject
    use hobject
    intro c hc
    have hfree := hcopied.frees c
    rw [hcopied.reference c, hcounted.copy_of_references rfl] at hfree
    simpa [anchored, single, hc] using hfree

/-- The guard, as a test. -/
def lastAlone (w : Node) : Instr → Bool
  | .readerFree => w.lock.read = 1
  | _ => true

theorem lastAlone_iff (h : lastAlone w i = true) :
  LastAlone w i
  := by
  cases i with
  | readerFree =>
      have hread : w.lock.read = 1 := of_decide_eq_true h
      exact hread
  | _ => trivial

/-- An object is made and a pointer given; a reader takes it and reads; the writer and the reader are deleted. -/
def onceRead : List (Programs.Step Instr Action) :=
  [.start .newWriter, .start .newReader, .run 0 (.update [1])] ++ List.replicate 6 (.run 0 .copy) ++
    List.replicate 11 (.run 1 .read) ++ List.replicate 7 (.run 0 .delete) ++ List.replicate 8 (.run 1 .delete)

/-- The object and its copy are freed once in this run. -/
theorem reads_and_frees_onceRead :
  ∃ s, machine.exec start onceRead = some s ∧ s.shared.objectFrees = 1 ∧ s.shared.copyFrees 0 = 1
  := by
  have hguarded : machine.Guarded (Programs.Allows LastAlone) start onceRead := by
    apply Programs.guarded_of_passes lastAlone fun w i => lastAlone_iff
    decide +kernel
  have hdone : ((machine.exec start onceRead).map fun s =>
      (s.threads.flatten, s.shared.pointers, s.shared.made, s.shared.copies)) = some ([], 0, true, 1) := by
    decide +kernel
  obtain ⟨s, hs, hfields⟩ := Option.map_eq_some_iff.mp hdone
  obtain ⟨hflatten, hpointers, hmade, hcopies⟩ : s.threads.flatten = [] ∧ s.shared.pointers = 0 ∧
      s.shared.made = true ∧ s.shared.copies = 1 := by simpa using hfields
  have htodo : s.todo = 0 := by
    rw [Programs.State.todo, hflatten]
    rfl
  obtain ⟨hobject, hcopy⟩ := (reads_and_frees hguarded hs).2 htodo hpointers hmade
  exact ⟨s, hs, hobject, hcopy 0 (by rw [hcopies]; exact Nat.one_pos)⟩

end

end Stm

end Skynet
