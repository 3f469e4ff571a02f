import FWServer.Kernel.History
import FWServer.Kernel.Machine
import FWServer.Util.Timer
import Mathlib.Algebra.Order.Ring.Int

/-!
# Timers over whole runs

The callbacks of `util/timer.lua` over any sequence of calls of `addtimer` and `rmtimer` and any order
in which the timeouts of skynet expire.  A callback calls the function it was made for and then lowers
its count; the function may add and remove timers itself, or suspend and let others run, so anything
may happen between these two steps.

The calls of `addtimer` are numbered, and the function given to a call is known by its number.
-/

namespace Timer

/-! ### Callbacks -/

section Callback

variable {φ : Type} (tid : ℤ)

/-- The callback of `addtimer` up to its call of `func`: the count it goes on with, or nothing when it
does not call `func`. -/
def callfunc (s : State φ) : Option ℤ × State φ :=
  match s.tab tid with
  | some tcount =>
      if tcount > 0 then (some tcount, s)
      else (none, { s with tab := Function.update s.tab tid (some tcount) })
  | none => (none, { s with tab := Function.update s.tab tid none })

/-- The rest of the callback, once `func` has returned. -/
def returned (tcount : ℤ) (s : State φ) : State φ :=
  { s with
    tab := Function.update s.tab tid (if tcount - 1 ≤ 0 then none else some (tcount - 1)) }

end Callback

/-! ### Runs -/

/-- What has happened: the call `c` of `addtimer` has handed out an id, an id has been passed to
`rmtimer`, the timeout of the call `c` has expired, and its callback has called the function or not. -/
inductive Event where
  | added (c : ℕ) (tid : ℤ)
  | removed (tid : ℤ)
  | expired (c : ℕ) (called : Bool)
  deriving DecidableEq

/-- The timers, the time in hundredths of a second, when each call of `addtimer` was made, the functions
that have been called and not returned, with the id and the count of their callbacks, and what has
happened, oldest first. -/
structure Process where
  timer : State ℕ
  now : ℤ
  calls : ℕ
  since : ℕ → ℤ
  running : List (ℕ × ℤ × ℤ)
  history : List Event

/-- What may happen next: a call of `addtimer` or `rmtimer`, some time passes, the timeout of a call
expires, or a function that has been called returns or raises an error. -/
inductive Label where
  | addtimer (delaySec : ℤ)
  | rmtimer (tid : ℤ)
  | pass (t : ℕ)
  | expire (c : ℕ)
  | returned (c : ℕ)
  | raised (c : ℕ)

/-- The timeout of the call `c` expires, and its callback runs up to its call of the function. -/
def expire (c : ℕ) (p : Process) : Option Process :=
  match p.timer.pending.find? fun e => e.2.2 = c with
  | none => none
  | some e =>
      if p.now < p.since c + e.2.1 then none
      else
        let x := callfunc e.1 { p.timer with pending := p.timer.pending.erase e }
        some { p with
          timer := x.2
          running := (x.1.map fun tcount => (c, e.1, tcount)).toList ++ p.running
          history := p.history ++ [.expired c x.1.isSome] }

/-- The step function. -/
def step (p : Process) : Label → Option Process
  | .addtimer delaySec =>
      let x := addtimer delaySec p.calls p.timer
      some { p with
        timer := x.2
        calls := p.calls + 1
        since := Function.update p.since p.calls p.now
        history := p.history ++ (x.1.map (Event.added p.calls)).toList }
  | .rmtimer tid =>
      some { p with
        timer := rmtimer tid p.timer
        history := p.history ++ [.removed tid] }
  | .pass t => some { p with now := p.now + t }
  | .expire c => expire c p
  | .returned c =>
      (p.running.find? fun e => e.1 = c).map fun e =>
        { p with
          timer := returned e.2.1 e.2.2 p.timer
          running := p.running.erase e }
  | .raised c =>
      (p.running.find? fun e => e.1 = c).map fun e =>
        { p with running := p.running.erase e }

/-- No timer has been added yet. -/
structure Unused (p : Process) : Prop where
  tab : ∀ tid, p.timer.tab tid = none
  pending : p.timer.pending = []
  running : p.running = []
  history : p.history = []

/-- The machine of all runs. -/
def processes : Machine Process Label where
  init := Unused
  step := step

/-! ### Histories -/

/-- The id of the call `c` has been passed to `rmtimer`, after it was handed out. -/
def Cancelled (h : List Event) (c : ℕ) : Prop :=
  ∃ before tid after, h = before ++ .added c tid :: after ∧ .removed tid ∈ after

/-- What may happen after `before`: ids are new, and a timeout expires once and then calls its function
unless it has been cancelled. -/
def Follows (before : List Event) : Event → Prop
  | .added _ tid => ∀ c, .added c tid ∉ before
  | .removed _ => True
  | .expired c called => (∃ tid, .added c tid ∈ before) ∧ (∀ b, .expired c b ∉ before) ∧
      (called = true ↔ ¬ Cancelled before c)

section History

variable {h : List Event} {e : Event} {c : ℕ}

theorem cancelled_concat :
  Cancelled (h ++ [e]) c ↔ Cancelled h c ∨ ∃ tid, .added c tid ∈ h ∧ e = .removed tid
  := by
  constructor
  · rintro ⟨before, tid, after, heq, hremoved⟩
    obtain ⟨-, -, rfl⟩ | ⟨after', rfl, rfl⟩ := History.concat_cases heq
    · cases hremoved
    · rcases List.mem_append.mp hremoved with hremoved | hremoved
      · exact .inl ⟨before, tid, after', rfl, hremoved⟩
      · right
        use tid, List.mem_append_right _ List.mem_cons_self
        exact (List.mem_singleton.mp hremoved).symm
  · rintro (⟨before, tid, after, rfl, hremoved⟩ | ⟨tid, hadded, rfl⟩)
    · exact ⟨before, tid, after ++ [e], by simp, List.mem_append_left _ hremoved⟩
    · obtain ⟨before, after, rfl⟩ := List.append_of_mem hadded
      refine ⟨before, tid, after ++ [.removed tid], by simp, ?_⟩
      exact List.mem_append_right _ List.mem_cons_self

theorem Cancelled.added (hc : Cancelled h c) :
  ∃ tid, .added c tid ∈ h
  := by
  obtain ⟨before, tid, after, rfl, -⟩ := hc
  exact ⟨tid, List.mem_append_right _ List.mem_cons_self⟩

/-- Only `rmtimer` cancels. -/
theorem cancelled_concat_of_ne (he : ∀ tid, e ≠ .removed tid) :
  Cancelled (h ++ [e]) c ↔ Cancelled h c
  := by
  rw [cancelled_concat]
  constructor
  · rintro (hc | ⟨tid, -, rfl⟩)
    · exact hc
    · exact absurd rfl (he tid)
  · exact .inl

theorem mem_concat_of_ne {e' : Event} (he : e ≠ e') :
  e' ∈ h ++ [e] ↔ e' ∈ h
  := by
  rw [List.mem_append, List.mem_singleton]
  constructor
  · rintro (hmem | rfl)
    · exact hmem
    · exact absurd rfl he
  · exact .inl

end History

/-! ### What holds in every state -/

/-- The table, the callbacks pending and running, and what has happened fit together. -/
structure Kept (p : Process) : Prop where
  ordered : History.Ordered Follows p.history
  tab : ∀ tid n, p.timer.tab tid = some n → n = 1 ∧ tid ≤ p.timer.timerId
  id : ∀ c tid, .added c tid ∈ p.history → tid ≤ p.timer.timerId ∧ c < p.calls
  unique : ∀ c c' tid tid', .added c tid ∈ p.history → .added c' tid' ∈ p.history →
    (c = c' ↔ tid = tid')
  /-- A pending callback is in the table unless it has been cancelled. -/
  pending : ∀ tid delay c, (tid, delay, c) ∈ p.timer.pending → .added c tid ∈ p.history ∧
    (∀ b, .expired c b ∉ p.history) ∧ (p.timer.tab tid = some 1 ↔ ¬ Cancelled p.history c)
  nodup : (p.timer.pending.map fun e => e.2.2).Nodup
  added : ∀ c tid, .added c tid ∈ p.history →
    (∃ b, .expired c b ∈ p.history) ∨ ∃ delay, (tid, delay, c) ∈ p.timer.pending
  running : ∀ c tid n, (c, tid, n) ∈ p.running → n = 1 ∧ .added c tid ∈ p.history ∧
    ∃ b, .expired c b ∈ p.history

section Step

variable {p p' : Process}

/-- A timeout that has expired was added before. -/
theorem Kept.added_of_expired (h : Kept p) {c : ℕ} {b : Bool}
    (hexpired : .expired c b ∈ p.history) :
  ∃ tid, .added c tid ∈ p.history
  := by
  obtain ⟨before, after, heq⟩ := List.append_of_mem hexpired
  obtain ⟨⟨tid, hadded⟩, -⟩ := h.ordered before _ after heq
  use tid
  rw [heq]
  exact List.mem_append_left _ hadded

/-- The next id is free. -/
theorem Kept.genTimerId (h : Kept p) :
  genTimerId p.timer = some (p.timer.timerId + 1)
  := by
  have hfree : p.timer.tab (p.timer.timerId + 1) = none := by
    cases htab : p.timer.tab (p.timer.timerId + 1) with
    | none => rfl
    | some n =>
        obtain ⟨-, hle⟩ := h.tab _ n htab
        omega
  rw [Timer.genTimerId, hfree]
  rfl

/-- The process after a call of `addtimer`. -/
theorem Kept.addtimer_eq (h : Kept p) (delaySec : ℤ) :
  step p (.addtimer delaySec) = some { p with
    timer :=
      { tab := Function.update p.timer.tab (p.timer.timerId + 1) (some 1)
        timerId := p.timer.timerId + 1
        pending := (p.timer.timerId + 1, max 1 (delaySec * 100), p.calls) :: p.timer.pending }
    calls := p.calls + 1
    since := Function.update p.since p.calls p.now
    history := p.history ++ [.added p.calls (p.timer.timerId + 1)] }
  := by
  rw [step, addtimer, h.genTimerId]
  rfl

/-- A new timer has a new id. -/
theorem Kept.addtimer (h : Kept p) (delaySec : ℤ) (hstep : step p (.addtimer delaySec) = some p') :
  Kept p'
  := by
  rw [h.addtimer_eq] at hstep
  obtain rfl := Option.some.inj hstep
  have hne : ∀ c b, Event.added p.calls (p.timer.timerId + 1) ≠ .expired c b := fun _ _ => nofun
  have hnr : ∀ tid, Event.added p.calls (p.timer.timerId + 1) ≠ .removed tid := fun _ => nofun
  -- the ids handed out so far are below the new one
  have hold : ∀ c tid, .added c tid ∈ p.history ++ [.added p.calls (p.timer.timerId + 1)] →
      (c = p.calls ∧ tid = p.timer.timerId + 1) ∨
        (.added c tid ∈ p.history ∧ tid ≤ p.timer.timerId ∧ c < p.calls) := by
    intro c tid hadded
    rcases List.mem_append.mp hadded with hadded | hadded
    · exact .inr ⟨hadded, h.id c tid hadded⟩
    · cases List.mem_singleton.mp hadded
      exact .inl ⟨rfl, rfl⟩
  constructor
  · apply h.ordered.concat
    intro c hadded
    obtain ⟨hle, -⟩ := h.id c _ hadded
    omega
  · intro tid n htab
    dsimp only at htab ⊢
    rcases eq_or_ne tid (p.timer.timerId + 1) with rfl | htid
    · rw [Function.update_self] at htab
      exact ⟨(Option.some.inj htab).symm, le_refl _⟩
    · rw [Function.update_of_ne htid] at htab
      obtain ⟨hn, hle⟩ := h.tab tid n htab
      exact ⟨hn, by omega⟩
  · intro c tid hadded
    dsimp only
    rcases hold c tid hadded with ⟨rfl, rfl⟩ | ⟨-, hle, hlt⟩
    · exact ⟨le_refl _, Nat.lt_succ_self _⟩
    · exact ⟨by omega, Nat.lt_succ_of_lt hlt⟩
  · intro c c' tid tid' hadded hadded'
    rcases hold c tid hadded with ⟨rfl, rfl⟩ | ⟨hadded, hle, hlt⟩
    · rcases hold c' tid' hadded' with ⟨rfl, rfl⟩ | ⟨-, hle', hlt'⟩
      · exact iff_of_true rfl rfl
      · exact iff_of_false hlt'.ne' (by omega)
    · rcases hold c' tid' hadded' with ⟨rfl, rfl⟩ | ⟨hadded', -, -⟩
      · exact iff_of_false hlt.ne (by omega)
      · exact h.unique c c' tid tid' hadded hadded'
  · intro tid delay c hpending
    dsimp only at hpending ⊢
    rw [cancelled_concat_of_ne hnr]
    rcases List.mem_cons.mp hpending with heq | hpending
    · cases heq
      refine ⟨List.mem_append_right _ List.mem_cons_self, ?_, ?_⟩
      · intro b hexpired
        rw [mem_concat_of_ne (hne _ _)] at hexpired
        obtain ⟨tid, hadded⟩ := h.added_of_expired hexpired
        exact lt_irrefl _ (h.id _ tid hadded).2
      · rw [Function.update_self]
        refine iff_of_true rfl fun hc => ?_
        obtain ⟨tid, hadded⟩ := hc.added
        exact lt_irrefl _ (h.id _ tid hadded).2
    · obtain ⟨hadded, hexpired, htab⟩ := h.pending tid delay c hpending
      refine ⟨List.mem_append_left _ hadded, ?_, ?_⟩
      · intro b
        rw [mem_concat_of_ne (hne _ _)]
        exact hexpired b
      · have htid : tid ≠ p.timer.timerId + 1 := by
          have hle := (h.id c tid hadded).1
          omega
        rw [Function.update_of_ne htid]
        exact htab
  · rw [List.map_cons, List.nodup_cons]
    refine ⟨?_, h.nodup⟩
    intro hmem
    obtain ⟨⟨tid, delay, c⟩, hpending, rfl⟩ := List.mem_map.mp hmem
    exact lt_irrefl _ (h.id _ tid (h.pending tid delay _ hpending).1).2
  · intro c tid hadded
    rcases hold c tid hadded with ⟨rfl, rfl⟩ | ⟨hadded, -, -⟩
    · exact .inr ⟨_, List.mem_cons_self⟩
    · rcases h.added c tid hadded with ⟨b, hexpired⟩ | ⟨delay, hpending⟩
      · exact .inl ⟨b, List.mem_append_left _ hexpired⟩
      · exact .inr ⟨delay, List.mem_cons_of_mem _ hpending⟩
  · intro c tid n hrunning
    obtain ⟨hn, hadded, b, hexpired⟩ := h.running c tid n hrunning
    exact ⟨hn, List.mem_append_left _ hadded, b, List.mem_append_left _ hexpired⟩

/-- Clearing an entry that is not there changes nothing. -/
theorem update_none {tab : ℤ → Option ℤ} {tid : ℤ} (htab : tab tid = none) :
  Function.update tab tid none = tab
  := by rw [← htab, Function.update_eq_self]

/-- An id passed to `rmtimer` leaves the table, and no other does. -/
theorem rmtimer_tab_of_one {s : State ℕ} (hone : ∀ tid n, s.tab tid = some n → n = 1) (tid : ℤ) :
  rmtimer tid s = { s with tab := Function.update s.tab tid none }
  := by
  rw [Timer.rmtimer]
  cases htab : s.tab tid with
  | none => rw [update_none htab]
  | some n =>
      obtain rfl := hone tid n htab
      rfl

/-- Removing an id cancels the call it was handed out to. -/
theorem Kept.rmtimer (h : Kept p) (tid : ℤ) (hstep : step p (.rmtimer tid) = some p') :
  Kept p'
  := by
  rw [step, rmtimer_tab_of_one (fun tid n htab => (h.tab tid n htab).1)] at hstep
  obtain rfl := Option.some.inj hstep
  have hadded_iff : ∀ c t, .added c t ∈ p.history ++ [.removed tid] ↔ .added c t ∈ p.history :=
    fun _ _ => mem_concat_of_ne nofun
  have hexpired_iff :
      ∀ c b, .expired c b ∈ p.history ++ [.removed tid] ↔ .expired c b ∈ p.history :=
    fun _ _ => mem_concat_of_ne nofun
  constructor
  · exact h.ordered.concat trivial
  · intro t n htab
    dsimp only at htab
    rcases eq_or_ne t tid with rfl | ht
    · rw [Function.update_self] at htab
      cases htab
    · rw [Function.update_of_ne ht] at htab
      exact h.tab t n htab
  · intro c t hadded
    exact h.id c t ((hadded_iff c t).mp hadded)
  · intro c c' t t' hadded hadded'
    exact h.unique c c' t t' ((hadded_iff c t).mp hadded) ((hadded_iff c' t').mp hadded')
  · intro t delay c hpending
    obtain ⟨hadded, hexpired, htab⟩ := h.pending t delay c hpending
    refine ⟨(hadded_iff c t).mpr hadded, ?_, ?_⟩
    · intro b
      rw [hexpired_iff]
      exact hexpired b
    · dsimp only
      rw [cancelled_concat]
      rcases eq_or_ne t tid with rfl | ht
      · rw [Function.update_self]
        apply iff_of_false nofun
        rw [not_not]
        exact .inr ⟨t, hadded, rfl⟩
      · rw [Function.update_of_ne ht, htab]
        apply not_congr
        constructor
        · exact .inl
        · rintro (hc | ⟨t', hadded', heq⟩)
          · exact hc
          · cases heq
            exact absurd ((h.unique c c t tid hadded hadded').mp rfl) ht
  · exact h.nodup
  · intro c t hadded
    rcases h.added c t ((hadded_iff c t).mp hadded) with ⟨b, hexpired⟩ | hpending
    · exact .inl ⟨b, (hexpired_iff c b).mpr hexpired⟩
    · exact .inr hpending
  · intro c t n hrunning
    obtain ⟨hn, hadded, b, hexpired⟩ := h.running c t n hrunning
    exact ⟨hn, (hadded_iff c t).mpr hadded, b, (hexpired_iff c b).mpr hexpired⟩

/-- The callback calls its function precisely when its id is in the table. -/
theorem callfunc_of_one {s : State ℕ} (hone : ∀ tid n, s.tab tid = some n → n = 1) (tid : ℤ) :
  callfunc tid s = (s.tab tid, s)
  := by
  rw [callfunc]
  cases htab : s.tab tid with
  | none =>
      dsimp only
      rw [update_none htab]
  | some n =>
      obtain rfl := hone tid n htab
      rfl

/-- What it takes for the timeout of a call to expire, and what comes of it. -/
theorem Kept.expire_iff (h : Kept p) (c : ℕ) :
  step p (.expire c) = some p' ↔ ∃ tid delay, (tid, delay, c) ∈ p.timer.pending ∧
    p.since c + delay ≤ p.now ∧ p' = { p with
      timer := { p.timer with pending := p.timer.pending.erase (tid, delay, c) }
      running := ((p.timer.tab tid).map fun tcount => (c, tid, tcount)).toList ++ p.running
      history := p.history ++ [.expired c (p.timer.tab tid).isSome] }
  := by
  have hone : ∀ (pending : List (ℤ × ℤ × ℕ)) tid,
      callfunc tid { p.timer with pending := pending }
        = (p.timer.tab tid, { p.timer with pending := pending }) := by
    intro pending tid
    apply callfunc_of_one
    intro tid n htab
    exact (h.tab tid n htab).1
  rw [step, expire]
  cases hfind : p.timer.pending.find? fun e => e.2.2 = c with
  | none =>
      apply iff_of_false nofun
      rintro ⟨tid, delay, hpending, -⟩
      have := List.find?_eq_none.mp hfind _ hpending
      simp at this
  | some e =>
      obtain ⟨tid, delay, c'⟩ := e
      have hpending := List.mem_of_find?_eq_some hfind
      obtain rfl : c' = c := by simpa using List.find?_some hfind
      dsimp only
      rw [hone]
      constructor
      · intro hsome
        split at hsome
        · cases hsome
        · next hdue =>
            use tid, delay, hpending, by omega
            exact (Option.some.inj hsome).symm
      · rintro ⟨tid', delay', hpending', hdue, rfl⟩
        -- a call has one callback pending
        have heq := List.inj_on_of_nodup_map h.nodup hpending hpending' rfl
        cases heq
        rw [if_neg (by omega)]

/-- A timeout that expires calls its function unless it has been cancelled. -/
theorem Kept.expire (h : Kept p) (c : ℕ) (hstep : step p (.expire c) = some p') :
  Kept p'
  := by
  obtain ⟨tid, delay, hpending, -, rfl⟩ := (h.expire_iff c).mp hstep
  obtain ⟨hadded, hexpired, htab⟩ := h.pending tid delay c hpending
  have hadded_iff : ∀ c' t, .added c' t ∈ p.history ++ [.expired c (p.timer.tab tid).isSome]
      ↔ .added c' t ∈ p.history :=
    fun _ _ => mem_concat_of_ne nofun
  have hnr : ∀ t, Event.expired c (p.timer.tab tid).isSome ≠ .removed t := fun _ => nofun
  have hcalled : (p.timer.tab tid).isSome = true ↔ ¬ Cancelled p.history c := by
    rw [← htab, Option.isSome_iff_exists]
    constructor
    · rintro ⟨n, hn⟩
      rw [hn, (h.tab tid n hn).1]
    · intro hn
      exact ⟨1, hn⟩
  constructor
  · exact h.ordered.concat ⟨⟨tid, hadded⟩, hexpired, hcalled⟩
  · exact h.tab
  · intro c' t hadded'
    exact h.id c' t ((hadded_iff c' t).mp hadded')
  · intro c₁ c₂ t₁ t₂ hadded₁ hadded₂
    exact h.unique c₁ c₂ t₁ t₂ ((hadded_iff c₁ t₁).mp hadded₁) ((hadded_iff c₂ t₂).mp hadded₂)
  · intro t d c' hpending'
    have hne : c' ≠ c := by
      -- a call has one callback pending
      rintro rfl
      have heq := List.inj_on_of_nodup_map h.nodup hpending (List.mem_of_mem_erase hpending') rfl
      rw [← heq] at hpending'
      exact h.nodup.of_map.not_mem_erase hpending'
    obtain ⟨hadded', hexpired', htab'⟩ := h.pending t d c' (List.mem_of_mem_erase hpending')
    refine ⟨(hadded_iff c' t).mpr hadded', ?_, ?_⟩
    · intro b
      rw [mem_concat_of_ne]
      · exact hexpired' b
      · intro heq
        cases heq
        exact hne rfl
    · rw [cancelled_concat_of_ne hnr]
      exact htab'
  · apply List.Nodup.sublist _ h.nodup
    exact List.erase_sublist.map _
  · intro c' t hadded'
    rcases h.added c' t ((hadded_iff c' t).mp hadded') with ⟨b, hexpired'⟩ | ⟨d, hpending'⟩
    · exact .inl ⟨b, List.mem_append_left _ hexpired'⟩
    · rcases eq_or_ne (t, d, c') (tid, delay, c) with heq | hne
      · cases heq
        exact .inl ⟨_, List.mem_append_right _ List.mem_cons_self⟩
      · exact .inr ⟨d, (List.mem_erase_of_ne hne).mpr hpending'⟩
  · intro c' t n hrunning
    rcases List.mem_append.mp hrunning with hrunning | hrunning
    · obtain ⟨n', hn', heq⟩ : ∃ n', p.timer.tab tid = some n' ∧ (c, tid, n') = (c', t, n) := by
        simpa using hrunning
      cases heq
      use (h.tab tid n hn').1, (hadded_iff c tid).mpr hadded
      exact ⟨_, List.mem_append_right _ List.mem_cons_self⟩
    · obtain ⟨hn, hadded', b, hexpired'⟩ := h.running c' t n hrunning
      exact ⟨hn, (hadded_iff c' t).mpr hadded', b, List.mem_append_left _ hexpired'⟩

/-- A function that returns or raises an error is no longer running. -/
theorem Kept.erase_running (h : Kept p) (e : ℕ × ℤ × ℤ) :
  Kept { p with running := p.running.erase e }
  := by
  refine ⟨h.ordered, h.tab, h.id, h.unique, h.pending, h.nodup, h.added, ?_⟩
  intro c tid n hrunning
  exact h.running c tid n (List.mem_of_mem_erase hrunning)

/-- A function that returns takes the id of its callback out of the table. -/
theorem Kept.returned (h : Kept p) (c : ℕ) (hstep : step p (.returned c) = some p') :
  Kept p'
  := by
  obtain ⟨⟨c', tid, n⟩, hfind, rfl⟩ := Option.map_eq_some_iff.mp hstep
  have hrunning := List.mem_of_find?_eq_some hfind
  obtain ⟨rfl, hadded, b, hexpired⟩ := h.running _ _ _ hrunning
  have h' := h.erase_running (c', tid, 1)
  refine ⟨h'.ordered, ?_, h'.id, h'.unique, ?_, h'.nodup, h'.added, h'.running⟩
  · intro t n htab
    dsimp only [Timer.returned] at htab
    rcases eq_or_ne t tid with rfl | ht
    · rw [Function.update_self] at htab
      cases htab
    · rw [Function.update_of_ne ht] at htab
      exact h.tab t n htab
  · intro t d c₂ hpending
    obtain ⟨hadded₂, hexpired₂, htab₂⟩ := h.pending t d c₂ hpending
    have ht : t ≠ tid := by
      rintro rfl
      obtain rfl := (h.unique c₂ c' t t hadded₂ hadded).mpr rfl
      exact hexpired₂ b hexpired
    dsimp only [Timer.returned]
    rw [Function.update_of_ne ht]
    exact ⟨hadded₂, hexpired₂, htab₂⟩

end Step

theorem Unused.kept {p : Process} (h : Unused p) :
  Kept p
  := by
  constructor
  · rw [h.history]
    exact History.ordered_nil
  all_goals simp [h.tab, h.history, h.pending, h.running]

/-- All steps keep the timers in order. -/
theorem kept_of_reachable {p : Process} (hp : processes.Reachable p) :
  Kept p
  := by
  apply Machine.invariant _ _ hp
  · intro p hunused
    exact hunused.kept
  · rintro p l p' h - hstep
    cases l with
    | addtimer delaySec => exact h.addtimer delaySec hstep
    | rmtimer tid => exact h.rmtimer tid hstep
    | pass t =>
        obtain rfl := Option.some.inj hstep
        exact ⟨h.ordered, h.tab, h.id, h.unique, h.pending, h.nodup, h.added, h.running⟩
    | expire c => exact h.expire c hstep
    | returned c => exact h.returned c hstep
    | raised c =>
        obtain ⟨e, -, rfl⟩ := Option.map_eq_some_iff.mp hstep
        exact h.erase_running e

/-- In every state: a timeout that has expired was added before, has expired once and has called its
function unless it had been cancelled; an id is handed out once; a timer that was added has expired
or is pending, and may expire as soon as its delay is over; and a timer can always be added. -/
theorem fires_once {p : Process} (hp : processes.Reachable p) :
  (∀ before c called after, p.history = before ++ .expired c called :: after →
    (∃ tid, .added c tid ∈ before) ∧ (∀ b, .expired c b ∉ before ++ after) ∧
      (called = true ↔ ¬ Cancelled before c)) ∧
  (∀ before c tid after, p.history = before ++ .added c tid :: after →
    ∀ c', .added c' tid ∉ before ++ after) ∧
  (∀ c tid, .added c tid ∈ p.history → (∃ called, .expired c called ∈ p.history) ∨
    ∃ delay, (tid, delay, c) ∈ p.timer.pending ∧ (p.since c + delay ≤ p.now →
      ∃ p' called, step p (.expire c) = some p' ∧
        p'.history = p.history ++ [.expired c called])) ∧
  ∀ delaySec, ∃ p' tid, step p (.addtimer delaySec) = some p' ∧
    p'.history = p.history ++ [.added p.calls tid] ∧
    (tid, max 1 (delaySec * 100), p.calls) ∈ p'.timer.pending
  := by
  have h := kept_of_reachable hp
  refine ⟨?_, ?_, ?_, ?_⟩
  · intro before c called after heq
    obtain ⟨hadded, hbefore, hcalled⟩ := h.ordered before _ after heq
    refine ⟨hadded, ?_, hcalled⟩
    intro b hmem
    rcases List.mem_append.mp hmem with hmem | hmem
    · exact hbefore b hmem
    · apply (heq ▸ h.ordered).not_mem _ hmem
      rintro before' hmem' ⟨-, hnew, -⟩
      exact hnew called hmem'
  · intro before c tid after heq c' hmem
    rcases List.mem_append.mp hmem with hmem | hmem
    · exact h.ordered before _ after heq c' hmem
    · apply (heq ▸ h.ordered).not_mem _ hmem
      intro before' hmem' hnew
      exact hnew c hmem'
  · intro c tid hadded
    rcases h.added c tid hadded with hexpired | ⟨delay, hpending⟩
    · exact .inl hexpired
    · right
      use delay, hpending
      intro hdue
      exact ⟨_, _, (h.expire_iff c).mpr ⟨tid, delay, hpending, hdue, rfl⟩, rfl⟩
  · intro delaySec
    exact ⟨_, _, h.addtimer_eq delaySec, rfl, List.mem_cons_self⟩

/-- Two timers are added and the first is removed: it expires in silence, and then the second one
calls its function. -/
theorem fires_once_cancelled :
  ∃ p, processes.Reachable p ∧
    p.history = [.added 0 1, .added 1 2, .removed 1, .expired 0 false, .expired 1 true] ∧
    (false = true ↔ ¬ Cancelled [.added 0 1, .added 1 2, .removed 1] 0) ∧
    ∀ c, Event.added c 1 ∉ [.added 1 2, .removed 1, .expired 0 false, .expired 1 true]
  := by
  let start : Process := ⟨⟨fun _ => none, 0, []⟩, 0, 0, fun _ => 0, [], []⟩
  have hexec : ∃ p, processes.exec start
        [.addtimer 1, .addtimer 0, .rmtimer 1, .pass 100, .expire 0, .expire 1] = some p ∧
      p.history = [.added 0 1, .added 1 2, .removed 1, .expired 0 false, .expired 1 true] :=
    ⟨_, rfl, rfl⟩
  obtain ⟨p, hexec, hhistory⟩ := hexec
  have hp : processes.Reachable p :=
    Machine.Reachable.exec _ (.init ⟨fun _ => rfl, rfl, rfl, rfl⟩) hexec
  obtain ⟨hexpired, hadded, -⟩ := fires_once hp
  use p, hp, hhistory
  constructor
  · exact (hexpired [.added 0 1, .added 1 2, .removed 1] 0 false [.expired 1 true] hhistory).2.2
  · intro c
    exact hadded [] 0 1 _ hhistory c

end Timer
