import FWServer.Gate.Watchdog
import Mathlib.Algebra.Order.Ring.Nat

/-!
# The lives of agents

An agent is created for a connection, is stored in the table of the watchdog, is taken out of it when
its connection is kicked, and is then told to disconnect.  `Place` says where an agent is in its life, and
`At` what that means in a state of the system: an agent is in one place.

In a run in which no agent is dropped from the table, every step moves the agents on in their lives.
-/

namespace Watchdog

/-! ### Places -/

/-- Where an agent is in its life: it has not been created, it is on its way to the coroutine `n` that
asked for it, it is stored under a connection, the coroutine `n` is having its connection kicked, or it
has been told to disconnect. -/
inductive Place where
  | absent
  | creating (n : ℕ)
  | stored (fd : ℕ)
  | closing (n fd : ℕ)
  | gone
  deriving DecidableEq

/-- The life of an agent. -/
inductive Place.Next : Place → Place → Prop
  | create (n : ℕ) : Next .absent (.creating n)
  | store (n fd : ℕ) : Next (.creating n) (.stored fd)
  | kick (n fd : ℕ) : Next (.stored fd) (.closing n fd)
  | disconnect (n fd : ℕ) : Next (.closing n fd) .gone

/-- What is left of a coroutine that has called the gate to kick the connection of the agent `a`: it
tells the agent to disconnect, and goes on with `k`. -/
def kickedThen (a : ℕ) (k : Watchdog Unit) : Except String Answer → Watchdog Unit :=
  fun r => ofReply r >>= fun _ => .emit (.disconnect a) k

/-- The coroutine `n` is having the connection `fd` of the agent `a` kicked. -/
def Closing (s : State) (n fd a : ℕ) : Prop :=
  ∃ j k, s.waiting n = some ⟨j, .kick fd, kickedThen a k⟩

/-- The agent has been created for the coroutine `n`, which has not received it yet. -/
def Creating (s : State) (n a : ℕ) : Prop :=
  s.network.slots n = some (.answered (.ok (.handle a)))

/-- How often the agent has been told to disconnect. -/
def disconnects (s : State) (a : ℕ) : ℕ :=
  s.network.sent.count (.disconnect a)

/-- The agent is in the place, and in no other. -/
structure At (s : State) (a : ℕ) (q : Place) : Prop where
  absent : s.network.agents ≤ a ↔ q = .absent
  creating : ∀ n, Creating s n a ↔ q = .creating n
  stored : ∀ fd, (s.process ()).agentOf fd = some a ↔ q = .stored fd
  closing : ∀ n fd, Closing s n fd a ↔ q = .closing n fd
  gone : disconnects s a = if q = .gone then 1 else 0

/-- Every agent that has a place has one in `s'`, further on in its life if it is another. -/
def Moves (s s' : State) : Prop :=
  ∀ a q, At s a q → ∃ q', At s' a q' ∧ Relation.ReflTransGen Place.Next q q'

section Place

variable {s s' s'' : State} {a : ℕ} {q q' : Place}

/-- An agent has one place. -/
theorem At.unique (h : At s a q) (h' : At s a q') :
  q = q'
  := by
  cases q with
  | absent => exact (h'.absent.mp (h.absent.mpr rfl)).symm
  | creating n => exact ((h'.creating n).mp ((h.creating n).mpr rfl)).symm
  | stored fd => exact ((h'.stored fd).mp ((h.stored fd).mpr rfl)).symm
  | closing n fd => exact ((h'.closing n fd).mp ((h.closing n fd).mpr rfl)).symm
  | gone =>
      by_contra hne
      have hgone := h.gone.symm.trans h'.gone
      rw [if_pos rfl, if_neg (Ne.symm hne)] at hgone
      cases hgone

theorem Moves.trans (h : Moves s s') (h' : Moves s' s'') :
  Moves s s''
  := by
  intro a q hq
  obtain ⟨q', hq', hnext⟩ := h a q hq
  obtain ⟨q'', hq'', hnext'⟩ := h' a q' hq'
  exact ⟨q'', hq'', hnext.trans hnext'⟩

theorem Moves.places (h : Moves s s') (hplaces : ∀ a, ∃ q, At s a q) (a : ℕ) :
  ∃ q, At s' a q
  := by
  obtain ⟨q, hq⟩ := hplaces a
  obtain ⟨q', hq', -⟩ := h a q hq
  exact ⟨q', hq'⟩

/-- What the place of an agent depends on. -/
structure SameFor (s s' : State) (a : ℕ) : Prop where
  agents : s'.network.agents ≤ a ↔ s.network.agents ≤ a
  creating : ∀ n, Creating s' n a ↔ Creating s n a
  stored : ∀ fd, (s'.process ()).agentOf fd = some a ↔ (s.process ()).agentOf fd = some a
  closing : ∀ n fd, Closing s' n fd a ↔ Closing s n fd a
  disconnects : disconnects s' a = disconnects s a

theorem SameFor.refl (s : State) (a : ℕ) :
  SameFor s s a
  := ⟨Iff.rfl, fun _ => Iff.rfl, fun _ => Iff.rfl, fun _ _ => Iff.rfl, rfl⟩

theorem SameFor.trans (h : SameFor s s' a) (h' : SameFor s' s'' a) :
  SameFor s s'' a
  := by
  constructor
  · exact h'.agents.trans h.agents
  · intro n
    exact (h'.creating n).trans (h.creating n)
  · intro fd
    exact (h'.stored fd).trans (h.stored fd)
  · intro n fd
    exact (h'.closing n fd).trans (h.closing n fd)
  · exact h'.disconnects.trans h.disconnects

theorem At.same (h : At s a q) (hsame : SameFor s s' a) :
  At s' a q
  := by
  constructor
  · exact hsame.agents.trans h.absent
  · intro n
    exact (hsame.creating n).trans (h.creating n)
  · intro fd
    exact (hsame.stored fd).trans (h.stored fd)
  · intro n fd
    exact (hsame.closing n fd).trans (h.closing n fd)
  · exact hsame.disconnects.trans h.gone

theorem moves_of_same (hsame : ∀ a, SameFor s s' a) :
  Moves s s'
  := fun a q hq => ⟨q, hq.same (hsame a), .refl⟩

/-- One agent moves on, and the others stay where they are. -/
theorem moves_one {q q' : Place} (hq : At s a q) (hnext : q.Next q') (hq' : At s' a q')
    (hsame : ∀ b, b ≠ a → SameFor s s' b) :
  Moves s s'
  := by
  intro b qb hqb
  rcases eq_or_ne b a with rfl | hb
  · obtain rfl := hqb.unique hq
    exact ⟨q', hq', .single hnext⟩
  · exact ⟨qb, hqb.same (hsame b hb), .refl⟩

/-- The coroutine that is having a connection kicked knows its agent. -/
theorem kickedThen_injective {a a' : ℕ} {k k' : Watchdog Unit}
    (h : kickedThen a k = kickedThen a' k') :
  a = a' ∧ k = k'
  := by
  have hdone := congrFun h (.ok .done)
  cases hdone
  exact ⟨rfl, rfl⟩

theorem closing_injective {j j' : Job} {fd fd' a a' : ℕ} {k k' : Watchdog Unit}
    (h : (⟨j, .kick fd, kickedThen a k⟩ : System.Suspended interface Job Unit)
      = ⟨j', .kick fd', kickedThen a' k'⟩) :
  fd = fd' ∧ a = a'
  := by
  obtain ⟨-, hquery, hresumed⟩ := System.Suspended.mk.inj h
  exact ⟨Query.kick.inj hquery, (kickedThen_injective hresumed).1⟩

end Place

/-! ### The loop of `closeSocket` -/

/-- The process after an agent has been taken out of the table. -/
def Process.remove (p : Process) (fd : ℕ) : Process :=
  { p.clear fd with users := GameUser.onLogoutUser fd p.users }

/-- The loop comes to its end without closing another connection. -/
def Ends (p : Process) (tab grown : ℕ) : List ℕ → List (Option ℕ) → Prop
  | _, [] => False
  | visited, none :: _ => mayEnd p tab grown visited = true
  | visited, some fd :: visits => mayVisit p tab grown visited fd = true ∧ p.agentOf fd = none ∧
      Ends p tab grown (fd :: visited) visits

section Stretch

variable {p : Process} {fd : ℕ}

theorem agentOf_clear_self (p : Process) (fd : ℕ) :
  (p.clear fd).agentOf fd = none
  := by
  simp [Process.agentOf, Process.agents, Process.clear]

theorem agentOf_clear_of_ne (p : Process) {fd fd' : ℕ} (h : fd' ≠ fd) :
  (p.clear fd).agentOf fd' = p.agentOf fd'
  := by
  simp only [Process.agentOf, Process.agents, Process.clear, Function.update_self]
  rw [AList.lookup_erase_ne h]

theorem agentOf_store_self (p : Process) (fd a : ℕ) :
  (p.store fd a).agentOf fd = some a
  := by
  simp [Process.agentOf, Process.agents, Process.store]

theorem agentOf_store_of_ne (p : Process) {fd fd' : ℕ} (h : fd' ≠ fd) (a : ℕ) :
  (p.store fd a).agentOf fd' = p.agentOf fd'
  := by
  simp only [Process.agentOf, Process.agents, Process.store, Function.update_self]
  rw [AList.lookup_insert_ne h]

theorem agentOf_renew (p : Process) (fd : ℕ) :
  p.renew.agentOf fd = none
  := by
  simp [Process.agentOf, Process.agents, Process.renew]

/-- Clearing an entry that is not there changes nothing. -/
theorem clear_of_none (h : p.agentOf fd = none) :
  p.clear fd = p
  := by
  have herase : p.agents.entries.erase fd = p.agents.entries := by
    apply AList.ext
    apply List.kerase_of_notMem_keys
    exact AList.lookup_eq_none.mp h
  unfold Process.clear
  rw [herase]
  exact congrArg (fun tabs => { p with tabs := tabs }) (Function.update_eq_self _ _)

/-- Closing a connection calls the gate if the connection has an agent. -/
theorem closeAgent_resume (p : Process) (fd : ℕ) (k : Watchdog Unit) :
  (closeAgent fd >>= fun _ => k).resume p =
    match p.agentOf fd with
    | none => k.resume p
    | some a =>
        ⟨[.broadcastDisconnect fd], p.remove fd, .waiting (.kick fd) (kickedThen a k)⟩
  := by
  have hkicked : ∀ a, (fun r => kicked a r >>= fun _ => k) = kickedThen a k := by
    intro a
    funext r
    cases r <;> rfl
  rw [closeAgent, Coroutine.read_bind, Coroutine.resume, Coroutine.write_bind, Coroutine.resume]
  cases hfd : p.agentOf fd with
  | none => rw [Coroutine.ret_bind, clear_of_none hfd]
  | some a =>
      dsimp only
      rw [← hkicked]
      rfl

/-- The loop ends, raises an error or closes another connection. -/
theorem closeRest_cases (p : Process) (tab grown : ℕ) (visited : List ℕ)
    (visits : List (Option ℕ)) :
  let x := (closeRest tab grown visited visits).resume p
  (Ends p tab grown visited visits ∧ x = ⟨[], p.renew, .returned ()⟩) ∨
  (∃ e, x = ⟨[], p, .raised e⟩) ∨
  ∃ fd a visited' visits', p.agentOf fd = some a ∧
    x = ⟨[.broadcastDisconnect fd], p.remove fd,
      .waiting (.kick fd) (kickedThen a (closeRest tab grown visited' visits'))⟩
  := by
  induction visits generalizing visited with
  | nil => exact .inr (.inl ⟨_, rfl⟩)
  | cons visit visits ih =>
      cases visit with
      | none =>
          dsimp only
          rw [closeRest, Coroutine.resume]
          by_cases hend : mayEnd p tab grown visited = true
          · rw [if_pos hend]
            exact .inl ⟨hend, rfl⟩
          · rw [if_neg hend]
            exact .inr (.inl ⟨_, rfl⟩)
      | some fd =>
          dsimp only
          rw [closeRest, Coroutine.resume]
          by_cases hvisit : mayVisit p tab grown visited fd = true
          · rw [if_pos hvisit, closeAgent_resume]
            cases hfd : p.agentOf fd with
            | none =>
                obtain ⟨hends, hx⟩ | hx := ih (fd :: visited)
                · exact .inl ⟨⟨hvisit, hfd, hends⟩, hx⟩
                · exact .inr hx
            | some a => exact .inr (.inr ⟨fd, a, _, _, hfd, rfl⟩)
          · rw [if_neg hvisit]
            exact .inr (.inl ⟨_, rfl⟩)

/-- A loop that comes to its end makes a new table and calls nothing. -/
theorem resume_of_ends {tab grown : ℕ} {visited : List ℕ} {visits : List (Option ℕ)}
    (h : Ends p tab grown visited visits) :
  (closeRest tab grown visited visits).resume p = ⟨[], p.renew, .returned ()⟩
  := by
  induction visits generalizing visited with
  | nil => exact h.elim
  | cons visit visits ih =>
      cases visit with
      | none =>
          have hend : mayEnd p tab grown visited = true := h
          rw [closeRest, Coroutine.resume, if_pos hend]
          rfl
      | some fd =>
          obtain ⟨hvisit, hfd, hends⟩ := h
          rw [closeRest, Coroutine.resume, if_pos hvisit, closeAgent_resume, hfd]
          exact ih hends

/-- A coroutine whose loop comes to its end tells its agent to disconnect, and sends nothing else. -/
theorem outputs_of_ends {tab grown : ℕ} {visited : List ℕ} {visits : List (Option ℕ)}
    (h : Ends p tab grown visited visits) (a : ℕ) :
  ((kickedThen a (closeRest tab grown visited visits) (.ok .done)).resume p).outputs = [.disconnect a]
  := by
  change .disconnect a :: ((closeRest tab grown visited visits).resume p).outputs = _
  rw [resume_of_ends h]

/-- A loop that has not visited anything yet ends only if there is nothing to visit. -/
theorem agentOf_of_ends (p : Process) {visits : List (Option ℕ)}
    (h : Ends p p.agent p.agents.grown [] visits) (fd : ℕ) :
  p.agentOf fd = none
  := by
  cases visits with
  | nil => exact h.elim
  | cons visit visits =>
      cases visit with
      | none =>
          have hkeys : p.agents.entries.keys = [] := by
            apply List.eq_nil_iff_forall_not_mem.mpr
            intro k hk
            have hall : ∀ x ∈ p.agents.entries.keys, x ∈ ([] : List ℕ) := by
              simpa [Ends, mayEnd, Process.agents] using h
            cases hall k hk
          apply AList.lookup_eq_none.mpr
          rw [AList.mem_keys, hkeys]
          exact List.not_mem_nil
      | some fd' =>
          obtain ⟨hvisit, hnone, -⟩ := h
          rw [mayVisit, Bool.and_eq_true, List.contains_iff_mem] at hvisit
          exact absurd (AList.mem_keys.mpr hvisit.1) (AList.lookup_eq_none.mp hnone)

end Stretch

/-! ### Stretches that close connections -/

/-- What a coroutine that closes connections goes on with after a call of the gate. -/
inductive Closer : Watchdog Unit → Prop
  | done : Closer (.ret ())
  | rest (tab grown : ℕ) (visited : List ℕ) (visits : List (Option ℕ)) :
      Closer (closeRest tab grown visited visits)

/-- What a stretch that closes connections comes to, if it does not drop an agent from the table. -/
inductive Closes (p : Process) : Coroutine.Stretch interface Unit → Prop
  | returned : Closes p ⟨[], p, .returned ()⟩
  | raised (e : String) : Closes p ⟨[], p, .raised e⟩
  | renewed (h : ∀ fd, p.agentOf fd = none) : Closes p ⟨[], p.renew, .returned ()⟩
  | kicks {fd a : ℕ} {k : Watchdog Unit} (h : p.agentOf fd = some a) (hk : Closer k) :
      Closes p ⟨[.broadcastDisconnect fd], p.remove fd, .waiting (.kick fd) (kickedThen a k)⟩

section Closes

variable {p : Process}

theorem closes_closeAgent (fd : ℕ) :
  Closes p ((closeAgent fd).resume p)
  := by
  have hbind : closeAgent fd = closeAgent fd >>= fun _ => .ret () :=
    (Coroutine.bind_ret (closeAgent fd)).symm
  rw [hbind, closeAgent_resume]
  cases hfd : p.agentOf fd with
  | none => exact .returned
  | some a => exact .kicks hfd .done

theorem closes_closeRest {tab grown : ℕ} {visited : List ℕ} {visits : List (Option ℕ)}
    (h : Ends p tab grown visited visits → ∀ fd, p.agentOf fd = none) :
  Closes p ((closeRest tab grown visited visits).resume p)
  := by
  obtain ⟨hends, hx⟩ | ⟨e, hx⟩ | ⟨fd, a, visited', visits', hfd, hx⟩ :=
    closeRest_cases p tab grown visited visits
  · rw [hx]
    exact .renewed (h hends)
  · rw [hx]
    exact .raised e
  · rw [hx]
    exact .kicks hfd (.rest _ _ _ _)

theorem closes_closeSocket (fd : Option ℕ) (visits : List (Option ℕ)) :
  Closes p ((closeSocket fd visits).resume p)
  := by
  cases fd with
  | none => exact closes_closeRest (agentOf_of_ends p)
  | some fd => exact closes_closeAgent fd

end Closes

/-! ### What holds in every state -/

/-- The coroutines that may be suspended. -/
inductive Form : System.Suspended interface Job Unit → Prop
  | opening (fd : ℕ) (addr : String) : Form ⟨.open fd addr, .newservice, opened fd addr⟩
  | starting (fd a : ℕ) (addr : String) :
      Form ⟨.open fd addr, .start a fd addr, started fd a addr⟩
  | forwarding (fd a : ℕ) (addr : String) :
      Form ⟨.open fd addr, .forward fd a addr, fun r => ofReply r >>= fun _ => .ret ()⟩
  | kicking (j : Job) (fd a : ℕ) {k : Watchdog Unit} (hk : Closer k) :
      Form ⟨j, .kick fd, kickedThen a k⟩

/-- The answers to a call. -/
def Query.Allows : Query → Except String Answer → Prop
  | .newservice, r => r ≠ .ok .done
  | .start _ _ _, r => ∀ a, r ≠ .ok (.handle a)
  | .forward _ _ _, r => ∀ a, r ≠ .ok (.handle a)
  | .kick _, r => r = .ok .done

/-- What may become of a call. -/
def Query.Fits (q : Query) : Slot interface → Prop
  | .asked q' => q' = q
  | .answered r => q.Allows r

/-- The suspended coroutines are as they may be, and have the calls and answers. -/
structure Wellformed (s : State) : Prop where
  fresh : ∀ n, s.started.length ≤ n → s.waiting n = none
  slots : ∀ n x, s.network.slots n = some x → ∃ t, s.waiting n = some t ∧ t.query.Fits x
  forms : ∀ n t, s.waiting n = some t → Form t

/-- The coroutine `n` is not suspended and has not called. -/
structure Idle (s : State) (n : ℕ) : Prop where
  waiting : s.waiting n = none
  slot : s.network.slots n = none

section Goes

variable {s : State} {n : ℕ}

theorem Wellformed.idle (h : Wellformed s) (hn : s.waiting n = none) :
  Idle s n
  := by
  refine ⟨hn, ?_⟩
  cases hslot : s.network.slots n with
  | none => rfl
  | some x =>
      obtain ⟨t, ht, -⟩ := h.slots n x hslot
      cases hn.symm.trans ht

/-- The state after the coroutine `n` has called. -/
def called (s : State) (n : ℕ) (t : System.Suspended interface Job Unit) (p : Process)
    (sent : List Message) : State :=
  { s with
    process := Function.update s.process () p
    network := { s.network with slots := s.network.slots.ask n t.query, sent := s.network.sent ++ sent }
    waiting := Function.update s.waiting n (some t) }

theorem Wellformed.called (h : Wellformed s) (hn : n < s.started.length)
    {t : System.Suspended interface Job Unit} (ht : Form t) (p : Process) (sent : List Message) :
  Wellformed (called s n t p sent)
  := by
  constructor
  · intro m hm
    have hne : m ≠ n := by
      rintro rfl
      exact absurd hn (Nat.not_lt.mpr hm)
    exact (Function.update_of_ne hne _ _).trans (h.fresh m hm)
  · intro m x hx
    rcases eq_or_ne m n with rfl | hne
    · have hx' := (Function.update_self (f := s.network.slots) _ _).symm.trans hx
      cases hx'
      exact ⟨t, Function.update_self _ _ _, rfl⟩
    · obtain ⟨t', ht', hfits⟩ := h.slots m x ((Function.update_of_ne hne _ _).symm.trans hx)
      exact ⟨t', (Function.update_of_ne hne _ _).trans ht', hfits⟩
  · intro m t' ht'
    rcases eq_or_ne m n with rfl | hne
    · have hself := (Function.update_self _ _ _).symm.trans ht'
      cases hself
      exact ht
    · exact h.forms m t' ((Function.update_of_ne hne _ _).symm.trans ht')

/-- A call leaves the places of the agents it is not about. -/
theorem SameFor.called (hidle : Idle s n) {t : System.Suspended interface Job Unit} {p : Process}
    {sent : List Message} {a : ℕ}
    (hp : ∀ fd, p.agentOf fd = some a ↔ (s.process ()).agentOf fd = some a)
    (ht : ∀ j fd k, t ≠ ⟨j, .kick fd, kickedThen a k⟩) (hsent : .disconnect a ∉ sent) :
  SameFor s (called s n t p sent) a
  := by
  constructor
  · rfl
  · intro m
    unfold Creating Watchdog.called Slots.ask
    dsimp only
    rcases eq_or_ne m n with rfl | hne
    · rw [Function.update_self, hidle.slot]
      exact iff_of_false nofun nofun
    · rw [Function.update_of_ne hne]
  · exact hp
  · intro m fd
    unfold Closing Watchdog.called
    dsimp only
    rcases eq_or_ne m n with rfl | hne
    · rw [Function.update_self, hidle.waiting]
      apply iff_of_false
      · rintro ⟨j, k, hclosing⟩
        exact ht j fd k (Option.some.inj hclosing)
      · rintro ⟨j, k, hclosing⟩
        cases hclosing
    · rw [Function.update_of_ne hne]
  · unfold Watchdog.disconnects Watchdog.called
    rw [List.count_append, List.count_eq_zero.mpr hsent, Nat.add_zero]

theorem agentOf_remove_self (p : Process) (fd : ℕ) :
  (p.remove fd).agentOf fd = none
  := agentOf_clear_self p fd

theorem agentOf_remove_of_ne (p : Process) {fd fd' : ℕ} (h : fd' ≠ fd) :
  (p.remove fd).agentOf fd' = p.agentOf fd'
  := agentOf_clear_of_ne p h

/-- An agent that is taken out of the table is having its connection kicked. -/
theorem At.kick {fd a : ℕ} (hq : At s a (.stored fd)) (hidle : Idle s n) (j : Job)
    (k : Watchdog Unit) :
  At (called s n ⟨j, .kick fd, kickedThen a k⟩ ((s.process ()).remove fd) [.broadcastDisconnect fd])
    a (.closing n fd)
  := by
  constructor
  · exact hq.absent.trans (iff_of_false nofun nofun)
  · intro m
    apply iff_of_false _ nofun
    unfold Creating called Slots.ask
    dsimp only
    rcases eq_or_ne m n with rfl | hne
    · rw [Function.update_self]
      exact nofun
    · rw [Function.update_of_ne hne]
      intro hcreating
      cases (hq.creating m).mp hcreating
  · intro fd'
    apply iff_of_false _ nofun
    intro hstored
    have hstored' : ((s.process ()).remove fd).agentOf fd' = some a := hstored
    rcases eq_or_ne fd' fd with rfl | hne
    · rw [agentOf_remove_self] at hstored'
      cases hstored'
    · rw [agentOf_remove_of_ne _ hne] at hstored'
      cases (hq.stored fd').mp hstored'
      exact hne rfl
  · intro m fd'
    unfold Closing called
    dsimp only
    rcases eq_or_ne m n with rfl | hne
    · rw [Function.update_self]
      constructor
      · rintro ⟨j', k', hclosing⟩
        rw [(closing_injective (Option.some.inj hclosing)).1]
      · intro hplace
        cases hplace
        exact ⟨j, k, rfl⟩
    · rw [Function.update_of_ne hne]
      apply iff_of_false
      · intro hclosing
        cases (hq.closing m fd').mp hclosing
      · intro hplace
        cases hplace
        exact hne rfl
  · have hnot : Message.disconnect a ∉ [Message.broadcastDisconnect fd] := by simp
    have hgone := hq.gone
    unfold disconnects called
    rw [List.count_append, List.count_eq_zero.mpr hnot]
    exact hgone

/-- A stretch that closes connections moves agents on. -/
theorem goes_of_closes (h : Wellformed s) (hplaces : ∀ a, ∃ q, At s a q)
    (hn : n < s.started.length) (hidle : Idle s n) (j : Job) {c : Watchdog Unit}
    (hc : Closes (s.process ()) (c.resume (s.process ()))) :
  Wellformed (system.run n j c s) ∧ Moves s (system.run n j c s)
  := by
  have hwaiting : Function.update s.waiting n none = s.waiting := by
    rw [← hidle.waiting, Function.update_eq_self]
  have hprocess : Function.update s.process () (s.process ()) = s.process :=
    Function.update_eq_self _ _
  generalize hx : c.resume (s.process ()) = x at hc
  cases hc with
  | returned =>
      have hrun : system.run n j c s = s := by
        rw [System.run_returned _ hx, hwaiting]
        exact congrArg (fun process => { s with process := process }) hprocess
      rw [hrun]
      exact ⟨h, moves_of_same (SameFor.refl s)⟩
  | raised e =>
      have hrun : system.run n j c s = s := by
        rw [System.run_raised _ hx, hwaiting]
        exact congrArg (fun process => { s with process := process }) hprocess
      rw [hrun]
      exact ⟨h, moves_of_same (SameFor.refl s)⟩
  | renewed hnone =>
      rw [System.run_returned _ hx, hwaiting]
      refine ⟨⟨h.fresh, h.slots, h.forms⟩, moves_of_same fun a => ?_⟩
      refine ⟨Iff.rfl, fun _ => Iff.rfl, fun fd => ?_, fun _ _ => Iff.rfl, rfl⟩
      dsimp only
      rw [Function.update_self, agentOf_renew, hnone]
  | @kicks fd a k hfd hk =>
      have hrun : system.run n j c s = called s n ⟨j, .kick fd, kickedThen a k⟩
          ((s.process ()).remove fd) [.broadcastDisconnect fd] := System.run_waiting _ hx
      rw [hrun]
      refine ⟨h.called hn (.kicking j fd a hk) _ _, ?_⟩
      obtain ⟨q, hq⟩ := hplaces a
      obtain rfl := (hq.stored fd).mp hfd
      apply moves_one hq (.kick n fd) (hq.kick hidle j k)
      intro b hb
      apply SameFor.called hidle
      · intro fd'
        rcases eq_or_ne fd' fd with rfl | hne
        · rw [agentOf_remove_self, hfd]
          apply iff_of_false nofun
          intro heq
          exact hb (Option.some.inj heq).symm
        · rw [agentOf_remove_of_ne _ hne]
      · intro j' fd' k' heq
        exact hb (closing_injective heq).2.symm
      · simp

/-! ### Steps -/

/-- The state in which the coroutine `n` has taken its answer. -/
def released (s : State) (n : ℕ) : State :=
  { s with
    network := { s.network with slots := Function.update s.network.slots n none }
    waiting := Function.update s.waiting n none }

theorem Wellformed.released (h : Wellformed s) (n : ℕ) :
  Wellformed (released s n)
  := by
  constructor
  · intro m hm
    unfold Watchdog.released
    dsimp only
    rcases eq_or_ne m n with rfl | hne
    · rw [Function.update_self]
    · rw [Function.update_of_ne hne]
      exact h.fresh m hm
  · intro m x hx
    unfold Watchdog.released at hx ⊢
    dsimp only at hx ⊢
    rcases eq_or_ne m n with rfl | hne
    · rw [Function.update_self] at hx
      cases hx
    · rw [Function.update_of_ne hne] at hx
      rw [Function.update_of_ne hne]
      exact h.slots m x hx
  · intro m t ht
    unfold Watchdog.released at ht
    dsimp only at ht
    rcases eq_or_ne m n with rfl | hne
    · rw [Function.update_self] at ht
      cases ht
    · rw [Function.update_of_ne hne] at ht
      exact h.forms m t ht

theorem idle_released (s : State) (n : ℕ) :
  Idle (released s n) n
  := ⟨Function.update_self _ _ _, Function.update_self _ _ _⟩

/-- Taking an answer leaves the places of the agents it is not about. -/
theorem SameFor.released {a : ℕ} (hcreating : ¬ Creating s n a) (hclosing : ∀ fd, ¬ Closing s n fd a) :
  SameFor s (released s n) a
  := by
  constructor
  · rfl
  · intro m
    unfold Creating Watchdog.released
    dsimp only
    rcases eq_or_ne m n with rfl | hne
    · rw [Function.update_self]
      exact iff_of_false nofun hcreating
    · rw [Function.update_of_ne hne]
  · exact fun _ => Iff.rfl
  · intro m fd
    rcases eq_or_ne m n with rfl | hne
    · apply iff_of_false _ (hclosing fd)
      rintro ⟨j, k, hnone⟩
      cases (Function.update_self _ _ _).symm.trans hnone
    · unfold Closing Watchdog.released
      dsimp only
      rw [Function.update_of_ne hne]
  · rfl

/-- The state in which the coroutine `n` has been answered. -/
def answered (s : State) (n : ℕ) (r : Except String Answer) (agents : ℕ) : State :=
  { s with network := { s.network with agents := agents, slots := s.network.slots.answer n r } }

theorem Wellformed.answered (h : Wellformed s) {q : Query}
    (hq : s.network.slots n = some (.asked q)) {r : Except String Answer} (hr : q.Allows r)
    (agents : ℕ) :
  Wellformed (answered s n r agents)
  := by
  refine ⟨h.fresh, ?_, h.forms⟩
  intro m x hx
  unfold Watchdog.answered Slots.answer at hx
  dsimp only at hx
  rcases eq_or_ne m n with rfl | hne
  · rw [Function.update_self] at hx
    obtain rfl := Option.some.inj hx
    obtain ⟨t, ht, rfl⟩ := h.slots m _ hq
    exact ⟨t, ht, hr⟩
  · rw [Function.update_of_ne hne] at hx
    exact h.slots m x hx

/-- An answer leaves the places of the agents it does not bring. -/
theorem SameFor.answered {q : Query} (hq : s.network.slots n = some (.asked q))
    {r : Except String Answer} {agents a : ℕ} (hr : r ≠ .ok (.handle a))
    (hagents : agents ≤ a ↔ s.network.agents ≤ a) :
  SameFor s (answered s n r agents) a
  := by
  refine ⟨hagents, fun m => ?_, fun _ => Iff.rfl, fun _ _ => Iff.rfl, rfl⟩
  unfold Creating Watchdog.answered Slots.answer
  dsimp only
  rcases eq_or_ne m n with rfl | hne
  · rw [Function.update_self, hq]
    apply iff_of_false
    · intro heq
      cases heq
      exact hr rfl
    · exact nofun
  · rw [Function.update_of_ne hne]

/-- A new agent is on its way to the coroutine that has asked for it. -/
theorem At.create (hq : At s s.network.agents .absent)
    (hasked : s.network.slots n = some (.asked .newservice)) :
  At (answered s n (.ok (.handle s.network.agents)) (s.network.agents + 1)) s.network.agents
    (.creating n)
  := by
  constructor
  · apply iff_of_false _ nofun
    exact Nat.not_succ_le_self _
  · intro m
    unfold Creating answered Slots.answer
    dsimp only
    rcases eq_or_ne m n with rfl | hne
    · rw [Function.update_self]
      exact iff_of_true rfl rfl
    · rw [Function.update_of_ne hne]
      apply iff_of_false
      · intro hcreating
        cases (hq.creating m).mp hcreating
      · intro heq
        cases heq
        exact hne rfl
  · intro fd
    exact (hq.stored fd).trans (iff_of_false nofun nofun)
  · intro m fd
    exact (hq.closing m fd).trans (iff_of_false nofun nofun)
  · exact hq.gone

/-- A step of the services keeps the state well formed and moves agents on. -/
theorem goes_of_react (h : Wellformed s) (hplaces : ∀ a, ∃ q, At s a q) {e : Event} {w : Services}
    (hw : react e s.network = some (w, none)) :
  Wellformed { s with network := w } ∧ Moves s { s with network := w }
  := by
  cases e with
  | request j => cases hw
  | serve n =>
      obtain ⟨q, hq, hw⟩ := Option.map_eq_some_iff.mp hw
      have hasked := Slots.asked_eq_some.mp hq
      cases q with
      | newservice =>
          obtain rfl := (Prod.mk.inj hw).1
          use h.answered (r := .ok (.handle s.network.agents)) hasked nofun (s.network.agents + 1)
          obtain ⟨q, hq⟩ := hplaces s.network.agents
          obtain rfl := hq.absent.mp (Nat.le_refl _)
          apply moves_one hq (.create n) (hq.create hasked)
          intro b hb
          apply SameFor.answered hasked
          · intro heq
            cases heq
            exact hb rfl
          · omega
      | start a fd addr =>
          obtain rfl := (Prod.mk.inj hw).1
          use h.answered (r := .ok .done) hasked nofun s.network.agents
          exact moves_of_same fun a => .answered hasked nofun Iff.rfl
      | forward fd a addr =>
          obtain rfl := (Prod.mk.inj hw).1
          use h.answered (r := .ok .done) hasked nofun s.network.agents
          exact moves_of_same fun a => .answered hasked nofun Iff.rfl
      | kick fd =>
          obtain rfl := (Prod.mk.inj hw).1
          use h.answered (r := .ok .done) hasked rfl s.network.agents
          exact moves_of_same fun a => .answered hasked nofun Iff.rfl
  | fail n e =>
      obtain ⟨q, hq, hw⟩ := Option.bind_eq_some_iff.mp hw
      have hasked := Slots.asked_eq_some.mp hq
      have hfailed : ¬ (∃ fd, q = .kick fd) ∧ w = (answered s n (.error e) s.network.agents).network := by
        cases q with
        | kick fd => cases hw
        | _ =>
            obtain rfl := (Prod.mk.inj (Option.some.inj hw)).1
            exact ⟨nofun, rfl⟩
      obtain ⟨hkick, rfl⟩ := hfailed
      have hallows : q.Allows (.error e) := by
        cases q with
        | newservice => exact nofun
        | start a fd addr => exact nofun
        | forward fd a addr => exact nofun
        | kick fd => exact absurd ⟨fd, rfl⟩ hkick
      use h.answered hasked hallows s.network.agents
      exact moves_of_same fun a => .answered hasked nofun Iff.rfl

/-- A coroutine that is started keeps the state well formed and moves agents on. -/
theorem goes_of_start (h : Wellformed s) (hplaces : ∀ a, ∃ q, At s a q) (j : Job) :
  let s' := system.run s.started.length j (code j) { s with started := s.started ++ [j] }
  Wellformed s' ∧ Moves s s'
  := by
  let s₀ : State := { s with started := s.started ++ [j] }
  have hlength : s₀.started.length = s.started.length + 1 := List.length_append
  have hwf : Wellformed s₀ := by
    refine ⟨fun m hm => ?_, h.slots, h.forms⟩
    apply h.fresh
    omega
  have hidle : Idle s₀ s.started.length := hwf.idle (h.fresh _ (Nat.le_refl _))
  have hn : s.started.length < s₀.started.length := by omega
  have hmoves : Moves s s₀ := moves_of_same fun _ =>
    ⟨Iff.rfl, fun _ => Iff.rfl, fun _ => Iff.rfl, fun _ _ => Iff.rfl, rfl⟩
  intro s'
  suffices hgoes : Wellformed s' ∧ Moves s₀ s' from ⟨hgoes.1, hmoves.trans hgoes.2⟩
  have hcloses : Closes (s₀.process ()) ((code j).resume (s₀.process ())) →
      Wellformed s' ∧ Moves s₀ s' := goes_of_closes hwf (hmoves.places hplaces) hn hidle j
  cases j with
  | «open» fd addr =>
      have hrun : s' = called s₀ s.started.length ⟨.open fd addr, .newservice, opened fd addr⟩
          (s₀.process ()) [] := by
        dsimp only [s', called]
        rw [List.append_nil, System.run_waiting _ rfl]
        rfl
      rw [hrun]
      use hwf.called hn (.opening fd addr) _ _
      apply moves_of_same
      intro a
      apply SameFor.called hidle
      · exact fun _ => Iff.rfl
      · intro j fd k heq
        cases heq
      · exact List.not_mem_nil
  | close fd => exact hcloses (closes_closeAgent fd)
  | error fd msg => exact hcloses (closes_closeAgent fd)
  | closeSocket fd visits => exact hcloses (closes_closeSocket fd visits)

/-- A coroutine that calls without touching the table leaves the places of all agents. -/
theorem goes_of_called (h : Wellformed s) (hn : n < s.started.length) (hidle : Idle s n) {j : Job}
    {c : Watchdog Unit} {t : System.Suspended interface Job Unit} (hform : Form t)
    (hkick : ∀ fd, t.query ≠ .kick fd) (hjob : t.job = j)
    (hc : c.resume (s.process ()) = ⟨[], s.process (), .waiting t.query t.resumed⟩) :
  Wellformed (system.run n j c s) ∧ Moves s (system.run n j c s)
  := by
  obtain rfl := hjob
  have hrun : system.run n t.job c s = called s n t (s.process ()) [] := by
    dsimp only [called]
    rw [List.append_nil, System.run_waiting _ hc]
    rfl
  rw [hrun]
  use h.called hn hform _ _
  apply moves_of_same
  intro a
  apply SameFor.called hidle
  · exact fun _ => Iff.rfl
  · rintro j fd k rfl
    exact hkick fd rfl
  · exact List.not_mem_nil

/-- Taking an answer that brings no agent and is not the gate's leaves the places of all agents. -/
theorem moves_released {t : System.Suspended interface Job Unit} {r : Except String Answer}
    (ht : s.waiting n = some t) (hr : s.network.slots n = some (.answered r))
    (hkick : ∀ fd, t.query ≠ .kick fd) (hhandle : ∀ a, r ≠ .ok (.handle a)) :
  Moves s (released s n)
  := by
  apply moves_of_same
  intro a
  apply SameFor.released
  · intro hcreating
    cases hr.symm.trans hcreating
    exact hhandle a rfl
  · rintro fd ⟨j, k, hclosing⟩
    cases ht.symm.trans hclosing
    exact hkick fd rfl

/-- The state in which the agent has been stored, and is about to be started. -/
def starting (s : State) (n fd a : ℕ) (addr : String) : State :=
  called (released s n) n ⟨.open fd addr, .start a fd addr, started fd a addr⟩
    ((s.process ()).store fd a) []

/-- A new agent is stored. -/
theorem moves_starting {fd a : ℕ} {addr : String}
    (ht : s.waiting n = some ⟨.open fd addr, .newservice, opened fd addr⟩)
    (hr : Creating s n a) (hfree : (s.process ()).agentOf fd = none) (hplaces : ∀ a, ∃ q, At s a q) :
  Moves s (starting s n fd a addr)
  := by
  have hkick : ∀ a fd', ¬ Closing s n fd' a := by
    rintro a fd' ⟨j, k, hclosing⟩
    cases ht.symm.trans hclosing
  have hnot : ∀ b j fd' k, (⟨.open fd addr, .start a fd addr, started fd a addr⟩ :
      System.Suspended interface Job Unit) ≠ ⟨j, .kick fd', kickedThen b k⟩ := by
    intro b j fd' k heq
    cases (System.Suspended.mk.inj heq).2.1
  obtain ⟨q, hq⟩ := hplaces a
  obtain rfl := (hq.creating n).mp hr
  apply moves_one hq (.store n fd)
  · constructor
    · exact hq.absent.trans (iff_of_false nofun nofun)
    · intro m
      apply iff_of_false _ nofun
      unfold Creating starting called released Slots.ask
      dsimp only
      rcases eq_or_ne m n with rfl | hne
      · rw [Function.update_self]
        exact nofun
      · rw [Function.update_of_ne hne, Function.update_of_ne hne]
        intro hcreating
        cases (hq.creating m).mp hcreating
        exact hne rfl
    · intro fd'
      have hprocess : ((starting s n fd a addr).process ()) = (s.process ()).store fd a := rfl
      rw [hprocess]
      rcases eq_or_ne fd' fd with rfl | hne
      · rw [agentOf_store_self]
        exact iff_of_true rfl rfl
      · rw [agentOf_store_of_ne _ hne]
        apply (hq.stored fd').trans
        apply iff_of_false nofun
        intro heq
        cases heq
        exact hne rfl
    · intro m fd'
      apply iff_of_false _ nofun
      unfold Closing starting called released
      dsimp only
      rcases eq_or_ne m n with rfl | hne
      · rw [Function.update_self]
        rintro ⟨j, k, hclosing⟩
        exact hnot a j fd' k (Option.some.inj hclosing)
      · rw [Function.update_of_ne hne, Function.update_of_ne hne]
        intro hclosing
        cases (hq.closing m fd').mp hclosing
    · have hgone := hq.gone
      unfold disconnects starting called released
      rw [List.append_nil]
      exact hgone
  · intro b hb
    have hreleased : SameFor s (released s n) b := by
      apply SameFor.released _ (hkick b)
      intro hcreating
      cases hr.symm.trans hcreating
      exact hb rfl
    apply hreleased.trans
    · apply SameFor.called (idle_released s n)
      · intro fd'
        have hprocess : (released s n).process () = s.process () := rfl
        rw [hprocess]
        rcases eq_or_ne fd' fd with rfl | hne
        · rw [agentOf_store_self, hfree]
          apply iff_of_false _ nofun
          intro heq
          cases heq
          exact hb rfl
        · rw [agentOf_store_of_ne _ hne]
      · exact hnot b
      · exact List.not_mem_nil

/-- The state in which an agent has been told to disconnect. -/
def disconnected (s : State) (n a : ℕ) : State :=
  let s' := released s n
  { s' with network := { s'.network with sent := s'.network.sent ++ [.disconnect a] } }

/-- An agent whose connection has been kicked is told to disconnect. -/
theorem moves_disconnected {j : Job} {fd a : ℕ} {k : Watchdog Unit}
    (ht : s.waiting n = some ⟨j, .kick fd, kickedThen a k⟩)
    (hr : s.network.slots n = some (.answered (.ok .done))) (hplaces : ∀ a, ∃ q, At s a q) :
  Moves s (disconnected s n a)
  := by
  have hclosing : ∀ fd' b, Closing s n fd' b → fd = fd' ∧ a = b := by
    rintro fd' b ⟨j', k', hclosing⟩
    exact closing_injective (Option.some.inj (ht.symm.trans hclosing))
  have hcreating : ∀ b, ¬ Creating s n b := by
    intro b hcreating
    cases hr.symm.trans hcreating
  obtain ⟨q, hq⟩ := hplaces a
  obtain rfl := (hq.closing n fd).mp ⟨j, k, ht⟩
  apply moves_one hq (.disconnect n fd)
  · constructor
    · exact hq.absent.trans (iff_of_false nofun nofun)
    · intro m
      have hsame : Creating (disconnected s n a) m a ↔ Creating (released s n) m a := Iff.rfl
      rw [hsame]
      apply iff_of_false _ nofun
      unfold Creating released
      dsimp only
      rcases eq_or_ne m n with rfl | hne
      · rw [Function.update_self]
        exact nofun
      · rw [Function.update_of_ne hne]
        intro hcreating
        cases (hq.creating m).mp hcreating
    · intro fd'
      exact (hq.stored fd').trans (iff_of_false nofun nofun)
    · intro m fd'
      apply iff_of_false _ nofun
      unfold Closing disconnected released
      dsimp only
      rcases eq_or_ne m n with rfl | hne
      · rw [Function.update_self]
        rintro ⟨j', k', hnone⟩
        cases hnone
      · rw [Function.update_of_ne hne]
        intro hclosing
        cases (hq.closing m fd').mp hclosing
        exact hne rfl
    · have hgone := hq.gone
      unfold disconnects at hgone
      unfold disconnects disconnected released
      rw [List.count_append, hgone]
      simp
  · intro b hb
    have hreleased : SameFor s (released s n) b := by
      apply SameFor.released (hcreating b)
      intro fd' hc
      exact hb (hclosing fd' b hc).2.symm
    apply hreleased.trans
    · refine ⟨Iff.rfl, fun _ => Iff.rfl, fun _ => Iff.rfl, fun _ _ => Iff.rfl, ?_⟩
      have hnot : Message.disconnect b ∉ [Message.disconnect a] := by simp [hb]
      unfold disconnects disconnected
      dsimp only
      rw [List.count_append, List.count_eq_zero.mpr hnot, Nat.add_zero]

/-- No agent is dropped from the table by the step: a loop of `closeSocket` does not come to its end while
there are agents in the table, and no agent is stored under a connection that has one. -/
def Careful (s : State) : System.Step Event → Prop
  | .event _ => True
  | .wake n =>
      (∀ j fd a tab grown visited visits,
        s.waiting n = some ⟨j, .kick fd, kickedThen a (closeRest tab grown visited visits)⟩ →
        Ends (s.process ()) tab grown visited visits → ∀ fd, (s.process ()).agentOf fd = none) ∧
      ∀ fd addr a, s.waiting n = some ⟨.open fd addr, .newservice, opened fd addr⟩ →
        Creating s n a → (s.process ()).agentOf fd = none

/-- A coroutine that is resumed keeps the state well formed and moves agents on. -/
theorem goes_of_wake (h : Wellformed s) (hplaces : ∀ a, ∃ q, At s a q)
    {t : System.Suspended interface Job Unit} {r : Except String Answer}
    (ht : s.waiting n = some t) (hr : s.network.slots n = some (.answered r))
    (hcareful : Careful s (.wake n)) :
  let s' := system.run n t.job (t.resumed r) (released s n)
  Wellformed s' ∧ Moves s s'
  := by
  intro s'
  have hwf := h.released n
  have hidle := idle_released s n
  have hn : n < (released s n).started.length := by
    apply Nat.lt_of_not_le
    intro hle
    cases (h.fresh n hle).symm.trans ht
  have hallows : t.query.Allows r := by
    obtain ⟨t', ht', hfits⟩ := h.slots n _ hr
    cases ht.symm.trans ht'
    exact hfits
  -- what follows when the coroutine was not told of an agent
  have hnext : (∀ fd, t.query ≠ .kick fd) → (∀ a, r ≠ .ok (.handle a)) →
      ((∀ a, ∃ q, At (released s n) a q) → Wellformed s' ∧ Moves (released s n) s') →
      Wellformed s' ∧ Moves s s' := by
    intro hkick hhandle hgoes
    have hmoves := moves_released ht hr hkick hhandle
    obtain ⟨hwf', hmoves'⟩ := hgoes (hmoves.places hplaces)
    exact ⟨hwf', hmoves.trans hmoves'⟩
  cases h.forms n t ht with
  | opening fd addr =>
      cases r with
      | error e =>
          apply hnext nofun nofun
          intro hplaces'
          exact goes_of_closes hwf hplaces' hn hidle _ (.raised e)
      | ok answer =>
          cases answer with
          | done => exact absurd rfl hallows
          | handle a =>
              have hfree := hcareful.2 fd addr a ht hr
              have hrun : s' = starting s n fd a addr := by
                dsimp only [s', starting, called]
                rw [List.append_nil, System.run_waiting _ rfl]
                rfl
              rw [hrun]
              use hwf.called hn (.starting fd a addr) _ _
              exact moves_starting ht hr hfree hplaces
  | starting fd a addr =>
      cases r with
      | error e =>
          apply hnext nofun nofun
          intro hplaces'
          exact goes_of_closes hwf hplaces' hn hidle _ (.raised e)
      | ok answer =>
          apply hnext nofun
          · rintro b heq
            exact hallows b heq
          · intro hplaces'
            exact goes_of_called hwf hn hidle (.forwarding fd a addr) nofun rfl rfl
  | forwarding fd a addr =>
      cases r with
      | error e =>
          apply hnext nofun nofun
          intro hplaces'
          exact goes_of_closes hwf hplaces' hn hidle _ (.raised e)
      | ok answer =>
          apply hnext nofun
          · rintro b heq
            exact hallows b heq
          · intro hplaces'
            exact goes_of_closes hwf hplaces' hn hidle _ .returned
  | @kicking j fd a k hk =>
      obtain rfl := hallows
      have hmoves := moves_disconnected ht hr hplaces
      have hrun : s' = system.run n j k (disconnected s n a) := System.run_emit _ _ _
      rw [hrun]
      suffices hgoes : Wellformed (system.run n j k (disconnected s n a)) ∧
          Moves (disconnected s n a) (system.run n j k (disconnected s n a)) from
        ⟨hgoes.1, hmoves.trans hgoes.2⟩
      have hwf' : Wellformed (disconnected s n a) := ⟨hwf.fresh, hwf.slots, hwf.forms⟩
      have hidle' : Idle (disconnected s n a) n := ⟨hidle.waiting, hidle.slot⟩
      apply goes_of_closes hwf' (hmoves.places hplaces) hn hidle' j
      cases hk with
      | done => exact .returned
      | rest tab grown visited visits =>
          apply closes_closeRest
          exact hcareful.1 j fd a tab grown visited visits ht

/-- A step that drops no agent keeps the state well formed and moves agents on. -/
theorem goes_of_step (h : Wellformed s) (hplaces : ∀ a, ∃ q, At s a q) {l : System.Step Event}
    {s' : State} (hcareful : Careful s l) (hstep : system.step s l = some s') :
  Wellformed s' ∧ Moves s s'
  := by
  obtain ⟨e, w, rfl, hw, rfl⟩ | ⟨e, w, j, rfl, hw, rfl⟩ | ⟨n, t, r, w, rfl, ht, hr, rfl⟩ :=
    system.step_cases hstep
  · exact goes_of_react h hplaces hw
  · have hrequest : w = s.network := by
      cases e with
      | request j' => exact (Prod.mk.inj (Option.some.inj hw)).1.symm
      | serve n =>
          obtain ⟨q, -, hq⟩ := Option.map_eq_some_iff.mp hw
          cases q <;> cases (Prod.mk.inj hq).2
      | fail n e =>
          obtain ⟨q, -, hq⟩ := Option.bind_eq_some_iff.mp hw
          cases q <;> cases hq
    obtain rfl := hrequest
    exact goes_of_start h hplaces j
  · obtain ⟨⟨r', slots⟩, hcollect, heq⟩ := Option.map_eq_some_iff.mp hr
    obtain ⟨hanswered, rfl⟩ := Slots.collect_eq_some.mp hcollect
    cases heq
    rw [← System.run_clear]
    exact goes_of_wake h hplaces ht hanswered hcareful

end Goes

theorem Started.wellformed {s : State} (h : Started s) :
  Wellformed s
  := by
  constructor
  · intro n hn
    exact h.waiting n
  · intro n x hx
    cases (h.slots n).symm.trans hx
  · intro n t ht
    cases (h.waiting n).symm.trans ht

theorem Started.places {s : State} (h : Started s) (a : ℕ) :
  ∃ q, At s a q
  := by
  use .absent
  constructor
  · rw [h.agents]
    exact iff_of_true (Nat.zero_le a) rfl
  · intro n
    rw [Creating, h.slots]
    exact iff_of_false nofun nofun
  · intro fd
    rw [Process.agentOf, h.entries, AList.lookup_empty]
    exact iff_of_false nofun nofun
  · intro n fd
    apply iff_of_false _ nofun
    rintro ⟨j, k, hclosing⟩
    cases (h.waiting n).symm.trans hclosing
  · rw [disconnects, h.sent]
    rfl

/-- As long as no agent is dropped from the table, every agent is in one place, and every step that
drops none moves the agents on in their lives: an agent leaves the table when the gate is called to kick
its connection, and is then told to disconnect, once. -/
theorem agents_disconnected_once {s : State} (hs : (system.machine Started).Reaches Careful s) :
  (∀ a, ∃ q, At s a q) ∧ ∀ l s', Careful s l → system.step s l = some s' → ∀ a q q', At s a q →
    At s' a q' → Relation.ReflTransGen Place.Next q q'
  := by
  have hkept : Wellformed s ∧ ∀ a, ∃ q, At s a q := by
    apply Machine.invariant _ _ hs
    · intro s hstarted
      exact ⟨hstarted.wellformed, hstarted.places⟩
    · rintro s l s' ⟨hwf, hplaces⟩ hcareful hstep
      obtain ⟨hwf', hmoves⟩ := goes_of_step hwf hplaces hcareful hstep
      exact ⟨hwf', hmoves.places hplaces⟩
  obtain ⟨hwf, hplaces⟩ := hkept
  use hplaces
  intro l s' hcareful hstep a q q' hq hq'
  obtain ⟨-, hmoves⟩ := goes_of_step hwf hplaces hcareful hstep
  obtain ⟨q'', hq'', hnext⟩ := hmoves a q hq
  rw [hq'.unique hq'']
  exact hnext

/-! ### Two runs -/

/-- The watchdog at the start. -/
def noAgents : State where
  process _ := ⟨fun _ => ⟨∅, 0⟩, 0, 1, GameUser.noSessions⟩
  network := ⟨0, fun _ => none, []⟩
  started := []
  waiting _ := none

theorem noAgents_started :
  Started noAgents
  := ⟨rfl, rfl, fun _ => rfl, rfl, rfl, fun _ => rfl⟩

/-- Two connections are opened and then all are to be closed.  While the second is being kicked, a third
is opened; the loop has come to its end. -/
def openedMeanwhile : List (System.Step Event) :=
  [.event (.request (.open 10 "10.0.0.1:1000")), .event (.serve 0), .wake 0,
    .event (.request (.open 20 "10.0.0.1:1001")), .event (.serve 1), .wake 1,
    .event (.request (.closeSocket none [some 10, some 20, none])), .event (.serve 2), .wake 2,
    .event (.request (.open 30 "10.0.0.1:1002")), .event (.serve 3), .wake 3, .event (.serve 2)]

/-- The agent of the third connection is dropped from the table with it: it is in no place. -/
theorem agent_dropped :
  ∃ s s', (system.machine Started).exec noAgents openedMeanwhile = some s ∧
    system.step s (.wake 2) = some s' ∧ (s.process ()).agentOf 30 = some 2 ∧
    (∀ fd, (s'.process ()).agentOf fd = none) ∧ disconnects s' 2 = 0 ∧ ¬ ∃ q, At s' 2 q
  := by
  have hruns : ∃ s s', (system.machine Started).exec noAgents openedMeanwhile = some s ∧
      system.step s (.wake 2) = some s' ∧ (s.process ()).agentOf 30 = some 2 ∧
      (s'.process ()).agents.entries.entries = [] ∧ disconnects s' 2 = 0 ∧ s'.network.agents = 3 ∧
      (∀ n, s'.network.slots n = none ∨ ∃ q, s'.network.slots n = some (.asked q)) ∧
      ∀ n, s'.waiting n = none ∨
        ∃ t a fd addr, s'.waiting n = some t ∧ t.query = .start a fd addr := by
    refine ⟨_, _, rfl, rfl, by decide +kernel, by decide +kernel, by decide +kernel, by decide +kernel,
      ?_, ?_⟩
    · intro n
      match n with
      | 0 => exact .inr ⟨_, rfl⟩
      | 1 => exact .inr ⟨_, rfl⟩
      | 2 => exact .inl rfl
      | 3 => exact .inr ⟨_, rfl⟩
      | n + 4 => exact .inl rfl
    · intro n
      match n with
      | 0 => exact .inr ⟨_, _, _, _, rfl, rfl⟩
      | 1 => exact .inr ⟨_, _, _, _, rfl, rfl⟩
      | 2 => exact .inl rfl
      | 3 => exact .inr ⟨_, _, _, _, rfl, rfl⟩
      | n + 4 => exact .inl rfl
  obtain ⟨s, s', hexec, hstep, hstored, hempty, hsent, hagents, hslots, hwaiting⟩ := hruns
  have hnone : ∀ fd, (s'.process ()).agentOf fd = none := by
    intro fd
    rw [Process.agentOf, AList.lookup, hempty]
    rfl
  refine ⟨s, s', hexec, hstep, hstored, hnone, hsent, ?_⟩
  rintro ⟨q, hq⟩
  cases q with
  | absent =>
      have hle := hq.absent.mpr rfl
      omega
  | creating n =>
      have hcreating := (hq.creating n).mpr rfl
      obtain hslot | ⟨q, hslot⟩ := hslots n
      · cases hslot.symm.trans hcreating
      · cases hslot.symm.trans hcreating
  | stored fd => cases (hnone fd).symm.trans ((hq.stored fd).mpr rfl)
  | closing n fd =>
      obtain ⟨j, k, hclosing⟩ := (hq.closing n fd).mpr rfl
      obtain hidle | ⟨t, a, fd', addr, ht, hquery⟩ := hwaiting n
      · cases hidle.symm.trans hclosing
      · obtain rfl := Option.some.inj (ht.symm.trans hclosing)
        cases hquery
  | gone => cases hsent.symm.trans hq.gone

/-- Two connections are opened and then all are to be closed; the first has been kicked. -/
def openedThenClosed : List (System.Step Event) :=
  [.event (.request (.open 10 "10.0.0.1:1000")), .event (.serve 0), .wake 0,
    .event (.request (.open 20 "10.0.0.1:1001")), .event (.serve 1), .wake 1,
    .event (.request (.closeSocket none [some 10, some 20, none])), .event (.serve 2)]

/-- `closeSocket` disconnects both agents, and every agent is in one place. -/
theorem agents_disconnected_once_closeSocket :
  ∃ s₁ s s', (system.machine Started).exec noAgents openedThenClosed = some s₁ ∧
    (system.machine Started).exec s₁ [.wake 2, .event (.serve 2)] = some s ∧
    system.step s (.wake 2) = some s' ∧ s'.network.sent =
      [.broadcastDisconnect 10, .disconnect 0, .broadcastDisconnect 20, .disconnect 1] ∧
    (∀ a, ∃ q, At s' a q) ∧
    ∀ a q q', At s a q → At s' a q' → Relation.ReflTransGen Place.Next q q'
  := by
  have hopened : (system.machine Started).Guarded Careful noAgents openedThenClosed := by
    apply Machine.Guarded.cons rfl trivial
    apply Machine.Guarded.cons rfl trivial
    apply Machine.Guarded.cons rfl
    · constructor
      · rintro j fd a tab grown visited visits ⟨⟩
      · rintro fd addr a ⟨⟩ ⟨⟩
        rfl
    apply Machine.Guarded.cons rfl trivial
    apply Machine.Guarded.cons rfl trivial
    apply Machine.Guarded.cons rfl
    · constructor
      · rintro j fd a tab grown visited visits ⟨⟩
      · rintro fd addr a ⟨⟩ ⟨⟩
        rfl
    apply Machine.Guarded.cons rfl trivial
    apply Machine.Guarded.cons rfl trivial
    trivial
  have hruns : ∃ s₁ s s' t t', (system.machine Started).exec noAgents openedThenClosed = some s₁ ∧
      (system.machine Started).exec s₁ [.wake 2, .event (.serve 2)] = some s ∧
      system.step s (.wake 2) = some s' ∧ s'.network.sent =
        [.broadcastDisconnect 10, .disconnect 0, .broadcastDisconnect 20, .disconnect 1] ∧
      s₁.waiting 2 = some t ∧ t.query = .kick 10 ∧
      ((t.resumed (.ok .done)).resume (s₁.process ())).outputs = [.disconnect 0, .broadcastDisconnect 20] ∧
      s.waiting 2 = some t' ∧ t'.query = .kick 20 ∧
      (s.process ()).agents.entries.entries = [] := by
    refine ⟨_, _, _, _, _, rfl, rfl, rfl, by decide +kernel, rfl, rfl, by decide +kernel, rfl, ?_, ?_⟩
    · decide +kernel
    · decide +kernel
  obtain ⟨s₁, s, s', t, t', hexec₁, hexec, hstep, hsent, ht, hquery, houtputs, ht', hquery', hempty⟩ := hruns
  have hgoes : Careful s₁ (.wake 2) := by
    constructor
    · intro j fd a tab grown visited visits hkick hends
      obtain rfl := Option.some.inj (ht.symm.trans hkick)
      cases (outputs_of_ends hends a).symm.trans houtputs
    · intro fd addr a hopening
      obtain rfl := Option.some.inj (ht.symm.trans hopening)
      cases hquery
  have hends : Careful s (.wake 2) := by
    constructor
    · intro j fd a tab grown visited visits hkick hends fd'
      rw [Process.agentOf, AList.lookup, hempty]
      rfl
    · intro fd addr a hopening
      obtain rfl := Option.some.inj (ht'.symm.trans hopening)
      cases hquery'
  have hs₁ := Machine.Reaches.exec _ (.init noAgents_started) hopened hexec₁
  have hs : (system.machine Started).Reaches Careful s := by
    apply Machine.Reaches.exec _ hs₁ _ hexec
    exact fun _ _ => ⟨hgoes, fun _ _ => ⟨trivial, trivial⟩⟩
  obtain ⟨hplaces, -⟩ := agents_disconnected_once (.step hs hends hstep)
  obtain ⟨-, hmoves⟩ := agents_disconnected_once hs
  exact ⟨s₁, s, s', hexec₁, hexec, hstep, hsent, hplaces, hmoves _ _ hends hstep⟩

end Watchdog
