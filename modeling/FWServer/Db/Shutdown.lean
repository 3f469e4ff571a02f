import FWServer.Db.Database

/-!
# Shutting down

`g_database.destroy` is to write every cached record back and to close every service of the
pool.  It does neither: the callback of `updateAll` hands `nil` on as the key, so that no record
is ever found, and one service alone is asked to close.
-/

open Lua Script DbCache

namespace Database

/-- The calls a coroutine makes from the state `s`, in order, when each is answered by `answer`
given the calls made before it. -/
def callsOf {α : Type} (answer : List Call → Call → Except String Answer) (c : Script α)
    (s : State) : List Call :=
  (c.serve (fun q calls => some (answer calls q, calls ++ [q])) s []).server

/-- Every record cached in the state `s` is written back, before any service is closed. -/
def WritesBack (s : State) (calls : List Call) : Prop :=
  ∀ tname reckey rectab, record s tname reckey = some rectab →
    ∃ dest before after,
      calls = before ++ .redis dest (.update tname (s.deref rectab)) :: after ∧
        ∀ h, .redis h .closeAll ∉ before

/-- Every service of the pool is asked to close. -/
def ClosesPool (s : State) (calls : List Call) : Prop :=
  ∀ h ∈ s.pool.handlers, .redis h .closeAll ∈ calls

/-- What shutting down is to achieve. -/
structure Flushes (s : State) (calls : List Call) : Prop where
  writesBack : WritesBack s calls
  closesPool : ClosesPool s calls

/-! ### What is written back -/

/-- Whatever would answer its calls, the coroutine ends without one and leaves the pool as it
is.  It returns only when the pool meets `Q`. -/
def Quiet {α : Type} (Q : Pool → Prop) (c : Script α) : Prop :=
  ∀ (ω : Type) (f : Call → ω → Option (Except String Answer × ω)) (s : State) (w : ω),
    ∃ out t, t.pool = s.pool ∧
      ((Q s.pool ∧ ∃ a, c.serve f s w = ⟨out, t, w, .returned a⟩) ∨
        ∃ e, c.serve f s w = ⟨out, t, w, .raised e⟩)

namespace Quiet

variable {α β : Type} {Q R : Pool → Prop}

theorem ret (a : α) :
  Quiet (fun _ => True) (.ret a)
  := fun _ _ s _ => ⟨[], s, rfl, .inl ⟨trivial, a, rfl⟩⟩

theorem read {k : State → Script α} (hk : ∀ s, Quiet Q (k s)) :
  Quiet Q (.read k)
  := fun ω f s w => hk s ω f s w

theorem andThen {c : Script α} {g : α → Script β} (hc : Quiet Q c)
    (hg : ∀ a, Quiet R (g a)) :
  Quiet R (c >>= g)
  := by
  intro ω f s w
  rw [Coroutine.serve_bind, Coroutine.Service.andThen]
  obtain ⟨out, t, hpool, ⟨-, a, hc⟩ | ⟨e, hc⟩⟩ := hc ω f s w
  · obtain ⟨out', t', hpool', hg⟩ := hg a ω f t w
    use out ++ out', t', hpool'.trans hpool
    rw [hc]
    rcases hg with ⟨hR, b, hb⟩ | ⟨e, he⟩
    · left
      rw [← hpool]
      exact ⟨hR, b, by simp only [hb]⟩
    · right
      exact ⟨e, by simp only [he]⟩
  · use out, t, hpool
    right
    rw [hc]
    exact ⟨e, rfl⟩

theorem forM {g : α → Script Unit} (hg : ∀ a, Quiet (fun _ => True) (g a)) (l : List α) :
  Quiet (fun _ => True) (l.forM g)
  := by
  induction l with
  | nil => exact ret ()
  | cons a l ih => exact andThen (hg a) fun _ => ih

end Quiet

/-- Picking a service of a pool that has only one raises an error. -/
theorem quiet_lredishandler :
  Quiet (fun pool => pool.handlers.length ≠ 1) lredishandler
  := by
  intro ω f s w
  obtain ⟨e, heq⟩ := lredishandler_eq
  use [], nextInTurn s, rfl
  rw [heq]
  simp only [Coroutine.serve]
  cases hturn : handlerInTurn s with
  | some h =>
      left
      constructor
      · intro hlength
        simp [handlerInTurn, hlength] at hturn
      · exact ⟨h, rfl⟩
  | none =>
      right
      exact ⟨e s, rfl⟩

/-- Without a key there is nothing to update. -/
theorem quiet_updateTab_nil (tname : TName) (bRmCache : Bool) :
  Quiet (fun _ => True) (updateTab tname .nil bRmCache)
  := by
  apply Quiet.andThen quiet_lredishandler
  intro redis
  apply Quiet.read
  intro s
  apply Quiet.ret

/-- Writing back with a callback that forgets the key calls no service. -/
theorem quiet_updateAll_nil :
  Quiet (fun _ => True) (updateAll fun tname _rkey => updateTab tname .nil true)
  := by
  apply Quiet.forM
  intro tname
  apply Quiet.read
  intro s
  apply Quiet.forM
  intro _
  apply quiet_updateTab_nil

/-! ### What is closed -/

/-- What `destroy` does before it asks a service to close. -/
def beforeClosing : Script ℕ := do
  Coroutine.modify fun s : State => { s with isdestroyAll := true }
  updateAll fun tname _rkey => updateTab tname .nil true
  lredishandler

theorem destroy_eq :
  destroy = beforeClosing >>= fun redis => skynetCall redis .closeAll >>= fun _ => pure ()
  := by
  rw [beforeClosing, Coroutine.bind_bind, Coroutine.bind_bind]
  rfl

theorem quiet_beforeClosing :
  Quiet (fun pool => pool.handlers.length ≠ 1) beforeClosing
  := by
  have hset : Quiet (fun _ => True)
      (Coroutine.modify fun s : State => { s with isdestroyAll := true }) := by
    intro ω f s w
    exact ⟨[], { s with isdestroyAll := true }, rfl, .inl ⟨trivial, (), rfl⟩⟩
  apply Quiet.andThen hset
  intro _
  apply Quiet.andThen quiet_updateAll_nil
  intro _
  exact quiet_lredishandler

/-- Shutting down makes at most one call, which asks one service of several to close. -/
theorem callsOf_destroy (answer : List Call → Call → Except String Answer) (s : State) :
  callsOf answer destroy s = [] ∨
    s.pool.handlers.length ≠ 1 ∧ ∃ h, callsOf answer destroy s = [.redis h .closeAll]
  := by
  rw [callsOf, destroy_eq, Coroutine.serve_bind, Coroutine.Service.andThen]
  obtain ⟨out, t, -, ⟨hlength, h, hserve⟩ | ⟨e, hserve⟩⟩ :=
    quiet_beforeClosing _ (fun q calls => some (answer calls q, calls ++ [q])) s []
  · right
    use hlength, h
    rw [hserve]
    simp only [skynetCall, Coroutine.call_bind, Coroutine.serve, List.nil_append]
    cases answer [] (.redis h .closeAll) <;> rfl
  · left
    rw [hserve]

/-- Shutting down writes no record back. -/
theorem update_notMem_callsOf_destroy (answer : List Call → Call → Except String Answer)
    (s : State) (dest : ℕ) (tname : TName) (rectab : Table) :
  .redis dest (.update tname rectab) ∉ callsOf answer destroy s
  := by
  rcases callsOf_destroy answer s with h | ⟨-, h', h⟩ <;>
    simp [h]

/-- Some service of the pool is not asked to close. -/
theorem not_closesPool_destroy (answer : List Call → Call → Except String Answer) (s : State) :
  ¬ ClosesPool s (callsOf answer destroy s)
  := by
  intro hcloses
  rcases callsOf_destroy answer s with h | ⟨hlength, h', h⟩
  · obtain ⟨a, ha⟩ := List.exists_mem_of_ne_nil _ s.pool.ne_nil
    have hmem := hcloses a ha
    rw [h] at hmem
    exact List.not_mem_nil hmem
  · -- all services are then the one asked, although there are several without repetition
    have hall : ∀ a ∈ s.pool.handlers, a = h' := by
      intro a ha
      have hmem := hcloses a ha
      rw [h] at hmem
      simpa using hmem
    have hnodup := s.pool.nodup
    rw [List.eq_replicate_of_mem hall, List.nodup_replicate] at hnodup
    have hpos : 0 < s.pool.handlers.length := List.length_pos_iff.mpr s.pool.ne_nil
    omega

/-- Shutting down never flushes the database: it does not close the pool, and it writes the
records back only when there are none. -/
theorem destroy_never_flushes (answer : List Call → Call → Except String Answer) (s : State) :
  ¬ Flushes s (callsOf answer destroy s) ∧
    (WritesBack s (callsOf answer destroy s) ↔
      ∀ tname reckey, record s tname reckey = none)
  := by
  constructor
  · exact fun hflush => not_closesPool_destroy answer s hflush.closesPool
  · constructor
    · intro hwrites tname reckey
      cases hrec : record s tname reckey with
      | none => rfl
      | some rectab =>
          obtain ⟨dest, before, after, hcalls, -⟩ := hwrites tname reckey rectab hrec
          have hmem := update_notMem_callsOf_destroy answer s dest tname (s.deref rectab)
          rw [hcalls] at hmem
          simp at hmem
    · intro hnone tname reckey rectab hrec
      rw [hnone] at hrec
      cases hrec

/-- Four services, and the user 1001 cached with a hundred pieces of gold. -/
def openState : State :=
  { initial ⟨[10, 11, 12, 13], fourServices_ne_nil, fourServices_nodup⟩ with
    heap := (initial ⟨[10, 11, 12, 13], fourServices_ne_nil, fourServices_nodup⟩).heap.alloc
      (.ofFields [("userId", .num 1001), ("gold", .num 100)])
    cache := Function.update (fun _ => ∅) .user (AList.insert (.num 1001) (.created 0) ∅) }

/-- The gold of the user is lost, and three services stay open, although every call is answered
with success. -/
theorem destroy_drops_gold :
  record openState .user (.num 1001) = some (.created 0) ∧
    callsOf (fun _ _ => .ok (.value (.bool true))) destroy openState = [.redis 10 .closeAll] ∧
    ¬ Flushes openState (callsOf (fun _ _ => .ok (.value (.bool true))) destroy openState)
  := by
  have hcalls : callsOf (fun _ _ => .ok (.value (.bool true))) destroy openState
      = [.redis 10 .closeAll] := rfl
  have hrecord : record openState .user (.num 1001) = some (.created 0) := rfl
  use hrecord, hcalls
  intro hflush
  obtain ⟨dest, before, after, heq, -⟩ := hflush.writesBack .user (.num 1001) (.created 0) hrecord
  rw [hcalls] at heq
  rcases before with _ | ⟨c, before⟩
  · cases heq
  · simp at heq

end Database
