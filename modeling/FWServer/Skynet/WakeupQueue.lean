import FWServer.Skynet.DispatchMessage
import Mathlib.Data.List.Nodup

/-!
# The queues of woken coroutines and of failed calls

When a message has been dispatched nothing is left in `wakeup_queue` and `error_queue`, every wait that was woken
has ended, once, and so has every call on a service that was reported dead (`queues_drained`), as long as
`suspend` is never left early with something in the queues and no coroutine to be forked, no entry of
`wakeup_queue` is taken that is of a wait that has ended, and no call is pending on a dead service that was made to it
by a name.
-/

namespace Skynet

namespace DispatchMessage

variable {session_id_coroutine table : ℕ → Entry} {point : ℕ → Point} {fork_queue forked : List ℕ}
  {wakeup_queue : List (ℕ × ℕ)} {waits calls : ℕ} {woken resumed broken doomed failed error_queue : List ℕ}
  {watching_session : ℕ → Option (Address × ℕ)} {st st' : State} {p : Point} {co session wait call : ℕ}
  {service : Address}

/-! ### Sessions -/

/-- A session is for the coroutine that waits for it, and what is in `fork_queue` has been forked. -/
structure Linked (session_id_coroutine : ℕ → Entry) (point : ℕ → Point) (fork_queue : List ℕ) : Prop where
  entry : ∀ session co, session_id_coroutine session = .co co ↔ (point co).session = some session
  forked : ∀ co ∈ fork_queue, point co = .forked
  nodup : fork_queue.Nodup

namespace Linked

theorem unique (h : Linked session_id_coroutine point fork_queue) {co' : ℕ}
    (hco : (point co).session = some session) (hco' : (point co').session = some session) :
  co = co'
  := Entry.co.inj (((h.entry session co).mpr hco).symm.trans ((h.entry session co').mpr hco'))

/-- A coroutine comes to wait for nothing, and its session, if it had one, is taken out. -/
theorem release (h : Linked session_id_coroutine point fork_queue) (hp : p.session = none)
    (htable : ∀ session co', table session = .co co' ↔
      session_id_coroutine session = .co co' ∧ (point co).session ≠ some session)
    (hforked : ∀ co' ∈ forked, co' ∈ fork_queue ∧ co' ≠ co) (hnodup : forked.Nodup) :
  Linked table (Function.update point co p) forked
  := by
  constructor
  · intro session co'
    rw [htable, h.entry]
    by_cases heq : co' = co
    · rw [heq, Function.update_self, hp]
      exact ⟨fun ⟨hs, hne⟩ => absurd hs hne, fun hs => nomatch hs⟩
    · rw [Function.update_of_ne heq]
      exact ⟨And.left, fun hs => ⟨hs, fun hco => heq (h.unique hs hco)⟩⟩
  · intro co' hco'
    obtain ⟨hmem, hne⟩ := hforked co' hco'
    rw [Function.update_of_ne hne]
    exact h.forked co' hmem
  · exact hnodup

/-- A coroutine that waits for nothing comes to wait for a session that is not used. -/
theorem await (h : Linked session_id_coroutine point fork_queue) (hco : (point co).session = none)
    (hforked : point co ≠ .forked) (hnil : session_id_coroutine session = .nil) (hp : p.session = some session) :
  Linked (Function.update session_id_coroutine session (.co co)) (Function.update point co p) fork_queue
  := by
  constructor
  · intro session' co'
    by_cases heq : co' = co
    · rw [heq, Function.update_self, hp]
      by_cases hs : session' = session
      · rw [hs, Function.update_self]
        exact iff_of_true rfl rfl
      · rw [Function.update_of_ne hs, h.entry, hco]
        exact ⟨nofun, fun h => absurd (Option.some.inj h).symm hs⟩
    · rw [Function.update_of_ne heq, ← h.entry]
      by_cases hs : session' = session
      · rw [hs, Function.update_self, hnil]
        exact ⟨fun h => absurd (Entry.co.inj h).symm heq, nofun⟩
      · rw [Function.update_of_ne hs]
  · intro co' hco'
    have hne : co' ≠ co := by
      intro heq
      exact hforked (heq ▸ h.forked co' hco')
    rw [Function.update_of_ne hne]
    exact h.forked co' hco'
  · exact h.nodup

/-- A coroutine that has not been created is forked. -/
theorem fork (h : Linked session_id_coroutine point fork_queue) (hfree : point co = .free) :
  Linked session_id_coroutine (Function.update point co .forked) (fork_queue ++ [co])
  := by
  have hnotin : co ∉ fork_queue := by
    intro hmem
    rw [h.forked co hmem] at hfree
    contradiction
  constructor
  · intro session co'
    rw [h.entry]
    by_cases heq : co' = co
    · rw [heq, Function.update_self, hfree]
      exact Iff.rfl
    · rw [Function.update_of_ne heq]
  · intro co' hco'
    by_cases heq : co' = co
    · rw [heq, Function.update_self]
    · rw [Function.update_of_ne heq]
      rcases List.mem_append.mp hco' with hmem | hmem
      · exact h.forked co' hmem
      · exact absurd (List.mem_singleton.mp hmem) heq
  · apply List.Nodup.append h.nodup (List.nodup_singleton co)
    intro co' hmem hco'
    exact hnotin (List.mem_singleton.mp hco' ▸ hmem)

end Linked

/-! ### Waits -/

/-- What becomes of a wait: it is going on, in one coroutine, or has ended, once; and one that was woken is in the
queue until it ends. -/
structure Waits (point : ℕ → Point) (wakeup_queue : List (ℕ × ℕ)) (waits : ℕ) (woken resumed broken : List ℕ) :
    Prop where
  current : ∀ co wait, wait ∈ (point co).waits → wait < waits ∧ wait ∉ resumed
  unique : ∀ co co' wait, wait ∈ (point co).waits → wait ∈ (point co').waits → co = co'
  old : ∀ wait ∈ resumed, wait < waits
  nodup : resumed.Nodup
  queued : ∀ wait ∈ woken, wait ∈ resumed ∨ ∃ co queued, (co, queued) ∈ wakeup_queue ∧ wait ∈ (point co).waits
  broken : ∀ wait ∈ broken, wait ∈ woken

namespace Waits

/-- The waits that are going on become fewer. -/
theorem mem_update (hp : p.waits = []) {co' : ℕ} (hmem : wait ∈ (Function.update point co p co').waits) :
  co' ≠ co ∧ wait ∈ (point co').waits
  := by
  by_cases heq : co' = co
  · rw [heq, Function.update_self, hp] at hmem
    contradiction
  · rw [Function.update_of_ne heq] at hmem
    exact ⟨heq, hmem⟩

/-- The wait of a coroutine ends. -/
theorem release (h : Waits point wakeup_queue waits woken resumed broken) (co : ℕ) (hp : p.waits = []) :
  Waits (Function.update point co p) wakeup_queue waits woken (resumed ++ (point co).waits) broken
  := by
  constructor
  · intro co' wait hwait
    obtain ⟨hne, hwait⟩ := mem_update hp hwait
    obtain ⟨hlt, hnotin⟩ := h.current co' wait hwait
    refine ⟨hlt, fun hmem => ?_⟩
    rcases List.mem_append.mp hmem with hmem | hmem
    · exact hnotin hmem
    · exact hne (h.unique co' co wait hwait hmem)
  · intro co₁ co₂ wait h₁ h₂
    exact h.unique co₁ co₂ wait (mem_update hp h₁).2 (mem_update hp h₂).2
  · intro wait hmem
    rcases List.mem_append.mp hmem with hmem | hmem
    · exact h.old wait hmem
    · exact (h.current co wait hmem).1
  · apply List.Nodup.append h.nodup
    · cases point co with
      | sleeping session wait in_wait => exact List.nodup_singleton wait
      | _ => exact List.nodup_nil
    · intro wait hmem hwait
      exact (h.current co wait hwait).2 hmem
  · intro wait hwait
    rcases h.queued wait hwait with hmem | ⟨co', queued, hqueued, hmem⟩
    · exact .inl (List.mem_append_left _ hmem)
    · by_cases heq : co' = co
      · rw [heq] at hmem
        exact .inl (List.mem_append_right _ hmem)
      · refine .inr ⟨co', queued, hqueued, ?_⟩
        rwa [Function.update_of_ne heq]
  · exact h.broken

/-- A coroutine that is not in a wait is elsewhere. -/
theorem move (h : Waits point wakeup_queue waits woken resumed broken) (hco : (point co).waits = [])
    (hp : p.waits = []) :
  Waits (Function.update point co p) wakeup_queue waits woken resumed broken
  := by
  have hrelease := h.release co hp
  rwa [hco, List.append_nil] at hrelease

/-- A coroutine that is not in a wait comes into one. -/
theorem sleep (h : Waits point wakeup_queue waits woken resumed broken) (hco : (point co).waits = [])
    (hp : p.waits = [waits]) :
  Waits (Function.update point co p) wakeup_queue (waits + 1) woken resumed broken
  := by
  have hwait : ∀ {co' wait}, wait ∈ (Function.update point co p co').waits →
      co' = co ∧ wait = waits ∨ co' ≠ co ∧ wait ∈ (point co').waits := by
    intro co' wait hmem
    by_cases heq : co' = co
    · rw [heq, Function.update_self, hp] at hmem
      exact .inl ⟨heq, List.mem_singleton.mp hmem⟩
    · rw [Function.update_of_ne heq] at hmem
      exact .inr ⟨heq, hmem⟩
  constructor
  · intro co' wait hmem
    rcases hwait hmem with ⟨-, rfl⟩ | ⟨-, hmem⟩
    · exact ⟨Nat.lt_succ_self _, fun hold => Nat.lt_irrefl _ (h.old _ hold)⟩
    · obtain ⟨hlt, hnotin⟩ := h.current co' wait hmem
      exact ⟨Nat.lt_succ_of_lt hlt, hnotin⟩
  · intro co₁ co₂ wait h₁ h₂
    rcases hwait h₁ with ⟨hco₁, rfl⟩ | ⟨-, hin₁⟩
    · rcases hwait h₂ with ⟨hco₂, -⟩ | ⟨-, hin₂⟩
      · exact hco₁.trans hco₂.symm
      · exact absurd (h.current co₂ _ hin₂).1 (Nat.lt_irrefl _)
    · rcases hwait h₂ with ⟨-, rfl⟩ | ⟨-, hin₂⟩
      · exact absurd (h.current co₁ _ hin₁).1 (Nat.lt_irrefl _)
      · exact h.unique co₁ co₂ wait hin₁ hin₂
  · intro wait hmem
    exact Nat.lt_succ_of_lt (h.old wait hmem)
  · exact h.nodup
  · intro wait hmem
    rcases h.queued wait hmem with hold | ⟨co', queued, hqueued, hcurrent⟩
    · exact .inl hold
    · have hne : co' ≠ co := by
        rintro rfl
        rw [hco] at hcurrent
        contradiction
      refine .inr ⟨co', queued, hqueued, ?_⟩
      rwa [Function.update_of_ne hne]
  · exact h.broken

/-- A wait is woken. -/
theorem wakeup (h : Waits point wakeup_queue waits woken resumed broken) (hwait : wait ∈ (point co).waits) :
  Waits point (wakeup_queue ++ [(co, wait)]) waits (woken ++ [wait]) resumed broken
  := by
  constructor
  · exact h.current
  · exact h.unique
  · exact h.old
  · exact h.nodup
  · intro wait' hmem
    rcases List.mem_append.mp hmem with hmem | hmem
    · rcases h.queued wait' hmem with hold | ⟨co', queued, hqueued, hcurrent⟩
      · exact .inl hold
      · exact .inr ⟨co', queued, List.mem_append_left _ hqueued, hcurrent⟩
    · rw [List.mem_singleton.mp hmem]
      exact .inr ⟨co, wait, List.mem_append_right _ (List.mem_singleton_self _), hwait⟩
  · intro wait' hmem
    exact List.mem_append_left _ (h.broken wait' hmem)

/-- An entry of a coroutine that is not in a wait is dropped. -/
theorem drop (h : Waits point ((co, wait) :: wakeup_queue) waits woken resumed broken)
    (hco : (point co).waits = []) :
  Waits point wakeup_queue waits woken resumed broken
  := by
  constructor
  · exact h.current
  · exact h.unique
  · exact h.old
  · exact h.nodup
  · intro wait' hmem
    rcases h.queued wait' hmem with hold | ⟨co', queued, hqueued, hcurrent⟩
    · exact .inl hold
    · rcases List.mem_cons.mp hqueued with heq | hqueued
      · obtain ⟨rfl, -⟩ := Prod.mk.inj heq
        rw [hco] at hcurrent
        contradiction
      · exact .inr ⟨co', queued, hqueued, hcurrent⟩
  · exact h.broken

/-- A wait that was woken is ended by the queue. -/
theorem ended (h : Waits point wakeup_queue waits woken resumed broken) (hwoken : wait ∈ woken) :
  Waits point wakeup_queue waits woken resumed (broken ++ [wait])
  := by
  refine { h with broken := fun wait' hmem => ?_ }
  rcases List.mem_append.mp hmem with hmem | hmem
  · exact h.broken wait' hmem
  · rwa [List.mem_singleton.mp hmem]

end Waits

/-! ### Calls -/

/-- What becomes of a call: it is pending, in one coroutine, or has been answered, or has failed, once; and one on a
service that was reported dead is in the queue until it fails. -/
structure Calls (point : ℕ → Point) (watching_session : ℕ → Option (Address × ℕ)) (error_queue : List ℕ) (calls : ℕ)
    (doomed failed : List ℕ) : Prop where
  current : ∀ co call, call ∈ (point co).calls → call < calls ∧ call ∉ failed
  unique : ∀ co co' call, call ∈ (point co).calls → call ∈ (point co').calls → co = co'
  old : ∀ call ∈ failed, call < calls
  nodup : failed.Nodup
  watched : ∀ session service call, watching_session session = some (service, call) →
    ∃ co, point co = .calling session call
  errors_nodup : error_queue.Nodup
  errors_watched : ∀ session ∈ error_queue, ∃ service call, watching_session session = some (service, call)
  doomed : ∀ call ∈ doomed, call ∈ failed ∨
    ∃ session service, session ∈ error_queue ∧ watching_session session = some (service, call)

namespace Calls

/-- The calls that are pending become fewer. -/
theorem mem_update (hp : p.calls = []) {co' : ℕ} (hmem : call ∈ (Function.update point co p co').calls) :
  co' ≠ co ∧ call ∈ (point co').calls
  := by
  by_cases heq : co' = co
  · rw [heq, Function.update_self, hp] at hmem
    contradiction
  · rw [Function.update_of_ne heq] at hmem
    exact ⟨heq, hmem⟩

theorem calling_update {co' : ℕ} (hco' : point co' = .calling session call)
    (hne : point co ≠ .calling session call) :
  Function.update point co p co' = .calling session call
  := by
  have hother : co' ≠ co := by
    rintro rfl
    exact hne hco'
  rwa [Function.update_of_ne hother]

/-- A call is answered that is not in the queue. -/
theorem answer (h : Calls point watching_session error_queue calls doomed failed) (co : ℕ) (hp : p.calls = [])
    (hcall : ∀ session call, point co = .calling session call → session ∉ error_queue) :
  Calls (Function.update point co p) (clearCall (point co) watching_session) error_queue calls doomed failed
  := by
  have hkept : ∀ {session}, session ∈ error_queue →
      clearCall (point co) watching_session session = watching_session session := by
    intro session hmem
    cases hco : point co with
    | calling session' call =>
        have hne : session ≠ session' := by
          rintro rfl
          exact hcall session call hco hmem
        apply Function.update_of_ne hne
    | _ => rfl
  constructor
  · intro co' call hmem
    exact h.current co' call (mem_update hp hmem).2
  · intro co₁ co₂ call h₁ h₂
    exact h.unique co₁ co₂ call (mem_update hp h₁).2 (mem_update hp h₂).2
  · exact h.old
  · exact h.nodup
  · intro session service call hwatching
    have hne : point co ≠ .calling session call := by
      intro hco
      rw [hco, clearCall, Function.update_self] at hwatching
      contradiction
    have hbefore : watching_session session = some (service, call) := by
      cases hco : point co with
      | calling session' call' =>
          rw [hco, clearCall] at hwatching
          by_cases heq : session = session'
          · rw [heq, Function.update_self] at hwatching
            contradiction
          · rwa [Function.update_of_ne heq] at hwatching
      | _ =>
          rw [hco] at hwatching
          exact hwatching
    obtain ⟨co', hco'⟩ := h.watched session service call hbefore
    exact ⟨co', calling_update hco' hne⟩
  · exact h.errors_nodup
  · intro session hmem
    rw [hkept hmem]
    exact h.errors_watched session hmem
  · intro call hmem
    rcases h.doomed call hmem with hold | ⟨session, service, hqueued, hwatching⟩
    · exact .inl hold
    · refine .inr ⟨session, service, hqueued, ?_⟩
      rwa [hkept hqueued]

/-- A coroutine that has no call pending is elsewhere. -/
theorem move (h : Calls point watching_session error_queue calls doomed failed) (hco : (point co).calls = [])
    (hp : p.calls = []) :
  Calls (Function.update point co p) watching_session error_queue calls doomed failed
  := by
  have hne : ∀ session call, point co ≠ .calling session call := by
    intro session call hcalling
    rw [hcalling] at hco
    contradiction
  have hanswer := h.answer co hp fun session call hcalling => absurd hcalling (hne session call)
  have hclear : clearCall (point co) watching_session = watching_session := by
    cases hpoint : point co with
    | calling session call => exact absurd hpoint (hne session call)
    | _ => rfl
  rwa [hclear] at hanswer

/-- The first call in the queue fails. -/
theorem fail (h : Calls point watching_session (session :: error_queue) calls doomed failed)
    (hco : point co = .calling session call) (hwatching : watching_session session = some (service, call))
    (hp : p.calls = []) :
  Calls (Function.update point co p) (Function.update watching_session session none) error_queue calls doomed
    (failed ++ [call])
  := by
  obtain ⟨hnotin, hnodup⟩ := List.nodup_cons.mp h.errors_nodup
  have hcall : call ∈ (point co).calls := by
    rw [hco]
    exact List.mem_singleton_self call
  have hkept : ∀ {session'}, session' ∈ error_queue →
      Function.update watching_session session none session' = watching_session session' := by
    intro session' hmem
    apply Function.update_of_ne
    rintro rfl
    exact hnotin hmem
  constructor
  · intro co' call' hmem
    obtain ⟨hne, hmem⟩ := mem_update hp hmem
    obtain ⟨hlt, hold⟩ := h.current co' call' hmem
    refine ⟨hlt, fun hfailed => ?_⟩
    rcases List.mem_append.mp hfailed with hfailed | hfailed
    · exact hold hfailed
    · rw [List.mem_singleton.mp hfailed] at hmem
      exact hne (h.unique co' co call hmem hcall)
  · intro co₁ co₂ call' h₁ h₂
    exact h.unique co₁ co₂ call' (mem_update hp h₁).2 (mem_update hp h₂).2
  · intro call' hmem
    rcases List.mem_append.mp hmem with hmem | hmem
    · exact h.old call' hmem
    · rw [List.mem_singleton.mp hmem]
      exact (h.current co call hcall).1
  · apply List.Nodup.append h.nodup (List.nodup_singleton call)
    intro call' hmem hsame
    rw [List.mem_singleton.mp hsame] at hmem
    exact (h.current co call hcall).2 hmem
  · intro session' service' call' hafter
    have hne : session' ≠ session := by
      rintro rfl
      rw [Function.update_self] at hafter
      contradiction
    rw [Function.update_of_ne hne] at hafter
    obtain ⟨co', hco'⟩ := h.watched session' service' call' hafter
    refine ⟨co', calling_update hco' fun hsame => hne ?_⟩
    rw [hco] at hsame
    exact (Point.calling.inj hsame).1.symm
  · exact hnodup
  · intro session' hmem
    rw [hkept hmem]
    exact h.errors_watched session' (List.mem_cons_of_mem _ hmem)
  · intro call' hmem
    rcases h.doomed call' hmem with hold | ⟨session', service', hqueued, hwatching'⟩
    · exact .inl (List.mem_append_left _ hold)
    · rcases List.mem_cons.mp hqueued with rfl | hqueued
      · obtain ⟨-, rfl⟩ := Prod.mk.inj (Option.some.inj (hwatching.symm.trans hwatching'))
        exact .inl (List.mem_append_right _ (List.mem_singleton_self _))
      · refine .inr ⟨session', service', hqueued, ?_⟩
        rwa [hkept hqueued]

/-- A coroutine calls, with a session that is not watched. -/
theorem pend (h : Calls point watching_session error_queue calls doomed failed) (hco : (point co).calls = [])
    (hnone : watching_session session = none) :
  Calls (Function.update point co (.calling session calls))
    (Function.update watching_session session (some (service, calls))) error_queue (calls + 1) doomed failed
  := by
  have hcall : ∀ {co' call}, call ∈ (Function.update point co (.calling session calls) co').calls →
      co' = co ∧ call = calls ∨ co' ≠ co ∧ call ∈ (point co').calls := by
    intro co' call hmem
    by_cases heq : co' = co
    · rw [heq, Function.update_self] at hmem
      exact .inl ⟨heq, List.mem_singleton.mp hmem⟩
    · rw [Function.update_of_ne heq] at hmem
      exact .inr ⟨heq, hmem⟩
  have hkept : ∀ {session' service' call}, watching_session session' = some (service', call) →
      Function.update watching_session session (some (service, calls)) session' = some (service', call) := by
    intro session' service' call hsome
    have hne : session' ≠ session := by
      rintro rfl
      rw [hnone] at hsome
      contradiction
    rwa [Function.update_of_ne hne]
  constructor
  · intro co' call hmem
    rcases hcall hmem with ⟨-, rfl⟩ | ⟨-, hmem⟩
    · exact ⟨Nat.lt_succ_self _, fun hold => Nat.lt_irrefl _ (h.old _ hold)⟩
    · obtain ⟨hlt, hnotin⟩ := h.current co' call hmem
      exact ⟨Nat.lt_succ_of_lt hlt, hnotin⟩
  · intro co₁ co₂ call h₁ h₂
    rcases hcall h₁ with ⟨hco₁, rfl⟩ | ⟨-, hin₁⟩
    · rcases hcall h₂ with ⟨hco₂, -⟩ | ⟨-, hin₂⟩
      · exact hco₁.trans hco₂.symm
      · exact absurd (h.current co₂ _ hin₂).1 (Nat.lt_irrefl _)
    · rcases hcall h₂ with ⟨-, rfl⟩ | ⟨-, hin₂⟩
      · exact absurd (h.current co₁ _ hin₁).1 (Nat.lt_irrefl _)
      · exact h.unique co₁ co₂ call hin₁ hin₂
  · intro call hmem
    exact Nat.lt_succ_of_lt (h.old call hmem)
  · exact h.nodup
  · intro session' service' call hwatching
    by_cases heq : session' = session
    · rw [heq, Function.update_self] at hwatching
      obtain ⟨-, rfl⟩ := Prod.mk.inj (Option.some.inj hwatching)
      refine ⟨co, ?_⟩
      rw [heq, Function.update_self]
    · rw [Function.update_of_ne heq] at hwatching
      obtain ⟨co', hco'⟩ := h.watched session' service' call hwatching
      refine ⟨co', calling_update hco' fun hcalling => ?_⟩
      rw [hcalling] at hco
      contradiction
  · exact h.errors_nodup
  · intro session' hmem
    obtain ⟨service', call, hwatching⟩ := h.errors_watched session' hmem
    exact ⟨service', call, hkept hwatching⟩
  · intro call hmem
    rcases h.doomed call hmem with hold | ⟨session', service', hqueued, hwatching⟩
    · exact .inl hold
    · exact .inr ⟨session', service', hqueued, hkept hwatching⟩

/-- Pending calls come into the empty queue. -/
theorem errors (h : Calls point watching_session [] calls doomed failed) (hnodup : error_queue.Nodup)
    (hwatched : ∀ session ∈ error_queue, ∃ service call, watching_session session = some (service, call)) :
  Calls point watching_session error_queue calls doomed failed
  := by
  refine { h with errors_nodup := hnodup, errors_watched := hwatched, doomed := fun call hmem => ?_ }
  rcases h.doomed call hmem with hold | ⟨session, service, hqueued, -⟩
  · exact .inl hold
  · contradiction

/-- Calls in the queue are on a service that was reported dead. -/
theorem doom (h : Calls point watching_session error_queue calls doomed failed) {dead : List ℕ}
    (hdead : ∀ call ∈ dead, ∃ session service, session ∈ error_queue ∧
      watching_session session = some (service, call)) :
  Calls point watching_session error_queue calls (doomed ++ dead) failed
  := by
  refine { h with doomed := fun call hmem => ?_ }
  rcases List.mem_append.mp hmem with hmem | hmem
  · exact h.doomed call hmem
  · exact .inr (hdead call hmem)

end Calls

/-! ### Resuming a coroutine -/

/-- The tables agree. -/
structure Consistent (st : State) : Prop where
  linked : Linked st.session_id_coroutine st.point st.fork_queue
  waits : Waits st.point st.wakeup_queue st.waits st.woken st.resumed st.broken
  calls : Calls st.point st.watching_session st.error_queue st.calls st.doomed st.failed

/-- They agree, the coroutine that runs is running, and between two messages the queues are empty. -/
structure Good (st : State) : Prop where
  consistent : Consistent st
  running : ∀ co frames, st.control = .running co frames → st.point co = .running
  idle : st.control = .idle → st.wakeup_queue = [] ∧ st.error_queue = []

/-- The loop over `fork_queue` leaves nothing in the other queues, or does not end at once. -/
def Settled (st : State) : Prop :=
  st.wakeup_queue = [] ∧ st.error_queue = [] ∨ st.fork_queue ≠ []

theorem Good.ended (h : Consistent st) (hsettled : Settled st) :
  Good st.ended
  := by
  constructor
  · exact ⟨h.linked, h.waits, h.calls⟩
  · intro co frames hcontrol
    unfold State.ended at hcontrol
    dsimp only at hcontrol
    split at hcontrol <;> contradiction
  · intro hcontrol
    rcases hsettled with hempty | hforked
    · exact hempty
    · unfold State.ended at hcontrol
      dsimp only at hcontrol
      rw [if_neg hforked] at hcontrol
      contradiction

theorem clearWait_co
    (htable : ∀ session co', table session = .co co' ↔
      session_id_coroutine session = .co co' ∧ p.session ≠ some session) (session co' : ℕ) :
  clearWait p table session = .co co' ↔ session_id_coroutine session = .co co' ∧ p.session ≠ some session
  := by
  rw [← htable]
  cases p with
  | sleeping session' wait in_wait =>
      cases in_wait with
      | false => exact Iff.rfl
      | true =>
          by_cases heq : session = session'
          · rw [heq, htable, clearWait, Function.update_self]
            exact ⟨nofun, fun ⟨_, hne⟩ => absurd rfl hne⟩
          · rw [clearWait, Function.update_of_ne heq]
  | _ => exact Iff.rfl

/-- The entry of a session is no coroutine any more. -/
theorem update_co {entry : Entry} (hp : p.session = some session) (hentry : ∀ co, entry ≠ .co co)
    (session' co' : ℕ) :
  Function.update session_id_coroutine session entry session' = .co co' ↔
    session_id_coroutine session' = .co co' ∧ p.session ≠ some session'
  := by
  by_cases heq : session' = session
  · rw [heq, Function.update_self]
    exact ⟨fun h => absurd h (hentry co'), fun ⟨_, hne⟩ => absurd hp hne⟩
  · rw [Function.update_of_ne heq]
    refine ⟨fun h => ⟨h, fun hsame => heq ?_⟩, And.left⟩
    exact Option.some.inj (hsame.symm.trans hp)

/-- A coroutine is resumed. -/
theorem Good.resume {frames : ℕ} (h : Linked session_id_coroutine st.point fork_queue)
    (htable : ∀ session co', st.session_id_coroutine session = .co co' ↔
      session_id_coroutine session = .co co' ∧ (st.point co).session ≠ some session)
    (hforked : ∀ co' ∈ st.fork_queue, co' ∈ fork_queue ∧ co' ≠ co) (hnodup : st.fork_queue.Nodup)
    (hwaits : Waits (Function.update st.point co .running) st.wakeup_queue st.waits st.woken
      (st.resumed ++ (st.point co).waits) st.broken)
    (hcalls : Calls (Function.update st.point co .running) (clearCall (st.point co) st.watching_session)
      st.error_queue st.calls st.doomed st.failed) :
  Good (st.resume co frames)
  := by
  constructor
  · exact ⟨h.release rfl (clearWait_co htable) hforked hnodup, hwaits, hcalls⟩
  · intro co' frames' hcontrol
    obtain ⟨rfl, -⟩ := Control.running.inj hcontrol
    apply Function.update_self
  · intro hcontrol
    cases hcontrol

/-- A coroutine that waits has not been forked. -/
theorem Linked.ne_of_session (h : Linked session_id_coroutine point fork_queue)
    (hco : (point co).session = some session) :
  ∀ co' ∈ fork_queue, co' ∈ fork_queue ∧ co' ≠ co
  := by
  intro co' hmem
  refine ⟨hmem, ?_⟩
  rintro rfl
  rw [h.forked co' hmem] at hco
  contradiction

/-! ### The end of `suspend` -/

theorem dispatch_error_queue_nil (hqueue : st.error_queue = []) (frames : ℕ) :
  dispatch_error_queue st frames = st.ended
  := by
  induction frames with
  | zero => rw [dispatch_error_queue, hqueue]
  | succ frames ih =>
      rw [dispatch_error_queue, hqueue]
      exact ih

theorem dispatch_error_queue_cons (hqueue : st.error_queue = session :: error_queue) (frames : ℕ) :
  dispatch_error_queue st frames = st.fail session error_queue frames
  := by
  cases frames with
  | zero => rw [dispatch_error_queue, hqueue]
  | succ frames => rw [dispatch_error_queue, hqueue]

/-- The first call in the queue fails. -/
theorem Good.fail {frames : ℕ} (h : Consistent st) (hqueue : st.error_queue = session :: error_queue) :
  Good (st.fail session error_queue frames)
  := by
  have hcalls := h.calls
  rw [hqueue] at hcalls
  obtain ⟨service, call, hwatching⟩ := hcalls.errors_watched session List.mem_cons_self
  obtain ⟨co, hco⟩ := hcalls.watched session service call hwatching
  have hsession : (st.point co).session = some session := by rw [hco, Point.session]
  have hentry : st.session_id_coroutine session = .co co := (h.linked.entry session co).mpr hsession
  rw [State.fail, hentry]
  dsimp only
  apply Good.resume
  · exact h.linked
  · exact update_co hsession nofun
  · exact h.linked.ne_of_session hsession
  · exact h.linked.nodup
  · exact h.waits.release _ rfl
  · dsimp only
    rw [hco]
    exact hcalls.fail hco hwatching rfl

theorem Good.dispatch_error_queue {frames : ℕ} (h : Consistent st)
    (hsettled : Settled st ∨ st.error_queue ≠ []) :
  Good (dispatch_error_queue st frames)
  := by
  cases hqueue : st.error_queue with
  | nil =>
      rw [dispatch_error_queue_nil hqueue]
      rcases hsettled with hsettled | hne
      · exact .ended h hsettled
      · exact absurd hqueue hne
  | cons session rest =>
      rw [dispatch_error_queue_cons hqueue]
      exact .fail h hqueue

/-- A coroutine is taken that is in a wait that was woken, or in none; in that case there is something to go on
with, or nothing is left. -/
def Fresh (st : State) : Prop :=
  match st.wakeup_queue with
  | [] => True
  | (co, _) :: rest =>
      match st.point co with
      | .sleeping _ wait _ => wait ∈ st.woken
      | _ => rest = [] ∨ st.error_queue ≠ [] ∨ st.fork_queue ≠ []

theorem Good.dispatch_wakeup {frames : ℕ} (h : Consistent st) (hfresh : Fresh st) :
  Good (dispatch_wakeup st frames)
  := by
  unfold Fresh at hfresh
  unfold DispatchMessage.dispatch_wakeup
  cases hqueue : st.wakeup_queue with
  | nil =>
      apply Good.dispatch_error_queue h
      by_cases herror : st.error_queue = []
      · exact .inl (.inl ⟨hqueue, herror⟩)
      · exact .inr herror
  | cons entry rest =>
      obtain ⟨co, queued⟩ := entry
      rw [hqueue] at hfresh
      dsimp only at hfresh ⊢
      have hwaits := h.waits
      rw [hqueue] at hwaits
      by_cases hco : ∃ session wait in_wait, st.point co = .sleeping session wait in_wait
      · obtain ⟨session, wait, in_wait, hco⟩ := hco
        have hsession : (st.point co).session = some session := by rw [hco, Point.session]
        rw [hco] at hfresh ⊢
        dsimp only at hfresh ⊢
        apply Good.resume
        · exact h.linked
        · exact update_co hsession nofun
        · exact h.linked.ne_of_session hsession
        · exact h.linked.nodup
        · have hnone : Point.running.waits = [] := rfl
          have hbroken := (hwaits.release co hnone).ended hfresh
          apply hbroken.drop
          rw [Function.update_self]
          rfl
        · apply h.calls.answer _ rfl
          intro session' call hcalling
          rw [hco] at hcalling
          contradiction
      · have hnone : (st.point co).waits = [] := by
          cases hpoint : st.point co with
          | sleeping session wait in_wait => exact absurd ⟨_, _, _, hpoint⟩ hco
          | _ => rfl
        have hgood : Good (DispatchMessage.dispatch_error_queue { st with wakeup_queue := rest } frames) := by
          have hdropped : Consistent { st with wakeup_queue := rest } :=
            ⟨h.linked, hwaits.drop hnone, h.calls⟩
          apply Good.dispatch_error_queue hdropped
          have hrest : rest = [] ∨ st.error_queue ≠ [] ∨ st.fork_queue ≠ [] := by
            cases hpoint : st.point co with
            | sleeping session wait in_wait => exact absurd ⟨_, _, _, hpoint⟩ hco
            | _ =>
                rw [hpoint] at hfresh
                exact hfresh
          rcases hrest with hrest | herror | hforked
          · by_cases herror : st.error_queue = []
            · exact .inl (.inl ⟨hrest, herror⟩)
            · exact .inr herror
          · exact .inr herror
          · exact .inl (.inr hforked)
        cases hpoint : st.point co with
        | sleeping session wait in_wait => exact absurd ⟨_, _, _, hpoint⟩ hco
        | _ => exact hgood

/-! ### Commands -/

theorem release_watching_eq (st : State) (address : ℕ) :
  ∃ services, release_watching st address = { st with
    watching_service := services }
  := by
  unfold release_watching
  cases st.watching_service address with
  | none => exact ⟨_, rfl⟩
  | some ref => exact ⟨_, rfl⟩

/-- Only the tables of messages are changed. -/
theorem account_eq (st : State) (co : ℕ) (command : Command) :
  ∃ ids addresses responses services, account st co command = { st with
    session_coroutine_id := ids
    session_coroutine_address := addresses
    session_response := responses
    watching_service := services }
  := by
  cases command with
  | error =>
      unfold account
      dsimp only
      split <;> exact ⟨_, _, _, _, rfl⟩
  | RETURN param =>
      unfold account
      dsimp only
      split <;> exact ⟨_, _, _, _, rfl⟩
  | RESPONSE =>
      unfold account
      dsimp only
      split
      · exact ⟨_, _, _, _, rfl⟩
      · split <;> exact ⟨_, _, _, _, rfl⟩
  | EXIT =>
      unfold account
      dsimp only
      split
      · exact ⟨_, _, _, _, rfl⟩
      · obtain ⟨services, heq⟩ := release_watching_eq st ‹ℕ›
        rw [heq]
        exact ⟨_, _, _, _, rfl⟩
  | _ => exact ⟨_, _, _, _, rfl⟩

theorem Consistent.account (h : Consistent st) (co : ℕ) (command : Command) :
  Consistent (account st co command)
  := by
  obtain ⟨ids, addresses, responses, services, heq⟩ := account_eq st co command
  rw [heq]
  exact ⟨h.linked, h.waits, h.calls⟩

/-- A coroutine that waits for nothing, and has not been forked, is elsewhere. -/
theorem Linked.move (h : Linked session_id_coroutine point fork_queue) (hco : (point co).session = none)
    (hforked : point co ≠ .forked) (hp : p.session = none) :
  Linked session_id_coroutine (Function.update point co p) fork_queue
  := by
  apply h.release hp
  · intro session co'
    rw [hco]
    exact ⟨fun hentry => ⟨hentry, nofun⟩, And.left⟩
  · intro co' hmem
    refine ⟨hmem, ?_⟩
    rintro rfl
    exact hforked (h.forked co' hmem)
  · exact h.nodup

theorem Consistent.move (h : Consistent st) (hco : st.point co = .running ∨ st.point co = .free)
    (hsession : p.session = none) (hwaits : p.waits = []) (hcalls : p.calls = []) :
  Consistent (st.stop co p)
  := by
  constructor
  · apply h.linked.move _ _ hsession
    · rcases hco with hco | hco <;> rw [hco] <;> rfl
    · rcases hco with hco | hco <;> rw [hco] <;> nofun
  · apply h.waits.move _ hwaits
    rcases hco with hco | hco <;> rw [hco] <;> rfl
  · apply h.calls.move _ hcalls
    rcases hco with hco | hco <;> rw [hco] <;> rfl

/-- The sessions of a call and of a wait are not in use. -/
def Unused (st : State) : Command → Prop
  | .CALL session _ => st.session_id_coroutine session = .nil
  | .SLEEP session _ => st.session_id_coroutine session = .nil
  | _ => True

/-- When `suspend` does not come to its end, the queues are empty, or there is something to go on with. -/
def Kept (st : State) (co frames : ℕ) (command : Command) : Prop :=
  if command.raises st co then Settled st
  else
    match command with
    | .QUIT => st.wakeup_queue = [] ∧ st.error_queue = [] ∨ frames ≠ 0 ∧ st.error_queue ≠ []
    | .nil => Settled st ∨ frames ≠ 0 ∧ st.error_queue ≠ []
    | _ => True

theorem Good.returned {frames : ℕ} (h : Consistent st)
    (hkept : Settled st ∨ frames ≠ 0 ∧ st.error_queue ≠ []) :
  Good (st.returned frames)
  := by
  cases frames with
  | zero =>
      rcases hkept with hsettled | ⟨hne, -⟩
      · exact .ended h hsettled
      · exact absurd rfl hne
  | succ frames =>
      apply Good.dispatch_error_queue h
      rcases hkept with hsettled | ⟨-, hne⟩
      · exact .inl hsettled
      · exact .inr hne

/-- A session that is not in use is not watched. -/
theorem Consistent.unwatched (h : Consistent st) (hnil : st.session_id_coroutine session = .nil) :
  st.watching_session session = none
  := by
  cases hwatching : st.watching_session session with
  | none => rfl
  | some watched =>
      obtain ⟨co, hco⟩ := h.calls.watched session watched.1 watched.2 hwatching
      have hentry := (h.linked.entry session co).mpr (by rw [hco, Point.session])
      rw [hnil] at hentry
      contradiction

theorem Good.suspend {frames : ℕ} {command : Command} (h : Consistent st) (hrunning : st.point co = .running)
    (hcontrol : st.control = .running co frames) (hunused : Unused st command)
    (hkept : Kept st co frames command) :
  Good (suspend st co frames command)
  := by
  unfold Kept at hkept
  unfold DispatchMessage.suspend
  obtain ⟨ids, addresses, responses, services, heq⟩ := account_eq st co command
  have haccount : Consistent (account st co command) := h.account co command
  rw [heq] at haccount ⊢
  have hstopped := haccount.move (.inl hrunning) (p := .stuck) rfl rfl rfl
  have hforked : st.point co ≠ .forked := by
    rw [hrunning]
    nofun
  by_cases hraises : command.raises st co = true
  · rw [if_pos hraises] at hkept
    dsimp only
    rw [if_pos hraises]
    exact .ended hstopped hkept
  · rw [if_neg hraises] at hkept
    dsimp only
    rw [if_neg hraises]
    cases command with
    | CALL session service =>
        refine ⟨⟨?_, ?_, ?_⟩, nofun, nofun⟩
        · apply h.linked.await _ hforked hunused rfl
          rw [hrunning]
          rfl
        · apply h.waits.move _ rfl
          rw [hrunning]
          rfl
        · apply h.calls.pend _ (h.unwatched hunused)
          rw [hrunning]
          rfl
    | SLEEP session in_wait =>
        refine ⟨⟨?_, ?_, ?_⟩, nofun, nofun⟩
        · apply h.linked.await _ hforked hunused rfl
          rw [hrunning]
          rfl
        · apply h.waits.sleep _ rfl
          rw [hrunning]
          rfl
        · apply h.calls.move _ rfl
          rw [hrunning]
          rfl
    | EXIT =>
        have hfree := haccount.move (.inl hrunning) (p := .free) rfl rfl rfl
        exact ⟨⟨hfree.linked, hfree.waits, hfree.calls⟩, nofun, nofun⟩
    | QUIT =>
        apply Good.returned
        · refine ⟨{ hstopped.linked with forked := nofun, nodup := List.nodup_nil }, ?_, ?_⟩
          · exact hstopped.waits
          · exact hstopped.calls
        · rcases hkept with hempty | hrest
          · exact .inl (.inl hempty)
          · exact .inr hrest
    | nil => exact .returned hstopped hkept
    | unknown => exact absurd rfl hraises
    | error => exact absurd rfl hraises
    | _ =>
        refine ⟨haccount, ?_, ?_⟩
        · intro co' frames' hcontrol'
          obtain ⟨rfl, -⟩ := Control.running.inj (hcontrol.symm.trans hcontrol')
          exact hrunning
        · intro hidle
          rw [hcontrol] at hidle
          contradiction

/-! ### Messages -/

/-- An entry that is no coroutine is taken out. -/
theorem Linked.forget (h : Linked session_id_coroutine point fork_queue)
    (hentry : ∀ co, session_id_coroutine session ≠ .co co) :
  Linked (Function.update session_id_coroutine session .nil) point fork_queue
  := by
  refine { h with entry := fun session' co' => ?_ }
  rw [← h.entry]
  by_cases heq : session' = session
  · rw [heq, Function.update_self]
    exact ⟨nofun, fun hco => absurd hco (hentry co')⟩
  · rw [Function.update_of_ne heq]

theorem Consistent.start (h : Consistent st) (hfree : st.point co = .free) (session source : ℕ) :
  Consistent (st.start co session source)
  := by
  have hrunning := h.move (.inr hfree) (p := .running) rfl rfl rfl
  exact ⟨hrunning.linked, hrunning.waits, hrunning.calls⟩

/-- What the environment does: a session is given out when it is not in use, and `pairs` goes over the sessions that
the table has. -/
def Admitted (st : State) : Event → Prop
  | .timeout session _ => st.session_id_coroutine session = .nil
  | .suspend command => Unused st command
  | .error _ session _ order => session = 0 →
      order.Nodup ∧ ∀ session, session ∈ order ↔ (st.watching_session session).isSome = true
  | _ => True

/-- The calls that are pending on a service were made to its number. -/
def Numbered (st : State) (service : ℕ) : Prop :=
  ∀ session address call, st.watching_session session = some (address, call) → address.service = service →
    address = .number service

/-- `suspend` comes to its end, or leaves nothing behind, no entry of `wakeup_queue` is of a wait that has ended, and
no call on a service that is reported dead was made to a name. -/
def Undisturbed (st : State) : Event → Prop
  | .suspend command => ∀ co frames, st.control = .running co frames → Kept st co frames command
  | .dispatch => Fresh st
  | .error _ session source _ => session = 0 → Numbered st source
  | _ => True

/-- A session that is put into the queue is watched. -/
theorem mem_watches {error_source : ℕ} {order : List ℕ} (hmem : session ∈ order.filter (st.watches error_source)) :
  ∃ address call, st.watching_session session = some (address, call)
  := by
  obtain ⟨⟨address, call⟩, hwatching, -⟩ := (Option.any_eq_true _ _).mp (List.mem_filter.mp hmem).2
  exact ⟨address, call, hwatching⟩

/-- A call to the number of a service is put into the queue when that is down. -/
theorem watches_of_pending {error_source : ℕ} (hnumbered : Numbered st error_source)
    (hpending : st.pending error_source session = some call) :
  st.watches error_source session = true ∧ ∃ address, st.watching_session session = some (address, call)
  := by
  obtain ⟨⟨address, call'⟩, hwatching, hif⟩ := Option.bind_eq_some_iff.mp hpending
  obtain ⟨hservice, hcall⟩ := Option.ite_none_right_eq_some.mp hif
  obtain rfl := Option.some.inj hcall
  obtain rfl := hnumbered session address call' hwatching hservice
  refine ⟨(Option.any_eq_true _ _).mpr ⟨_, hwatching, ?_⟩, _, hwatching⟩
  exact decide_eq_true rfl

/-- Calls on the source of an error fail. -/
theorem Consistent.error_dispatch {error_session error_source : ℕ} {order : List ℕ} (h : Consistent st)
    (hempty : st.error_queue = [])
    (horder : error_session = 0 →
      order.Nodup ∧ ∀ session, session ∈ order ↔ (st.watching_session session).isSome = true)
    (hnumbered : error_session = 0 → Numbered st error_source) :
  Consistent (error_dispatch st error_session error_source order)
  := by
  have hcalls := h.calls
  rw [hempty] at hcalls
  unfold DispatchMessage.error_dispatch
  by_cases hzero : error_session = 0
  · rw [if_pos hzero, hempty, List.nil_append]
    obtain ⟨hnodup, hpairs⟩ := horder hzero
    refine ⟨h.linked, h.waits, ?_⟩
    apply (hcalls.errors (hnodup.filter _) fun session hmem => mem_watches hmem).doom
    intro call hmem
    obtain ⟨session, hsession, hpending⟩ := List.mem_filterMap.mp hmem
    obtain ⟨hwatches, address, hwatching⟩ := watches_of_pending (hnumbered hzero) hpending
    exact ⟨session, address, List.mem_filter.mpr ⟨hsession, hwatches⟩, hwatching⟩
  · rw [if_neg hzero]
    cases hwatching : st.watching_session error_session with
    | none => exact h
    | some watched =>
        rw [Option.isSome_some, if_pos rfl, hempty, List.nil_append]
        refine ⟨h.linked, h.waits, ?_⟩
        apply hcalls.errors (List.nodup_singleton error_session)
        intro session hmem
        rw [List.mem_singleton.mp hmem]
        exact ⟨watched.1, watched.2, hwatching⟩

theorem error_dispatch_frame (st : State) (error_session error_source : ℕ) (order : List ℕ) :
  (error_dispatch st error_session error_source order).control = st.control ∧
    (error_dispatch st error_session error_source order).point = st.point
  := by
  unfold error_dispatch
  split
  · exact ⟨rfl, rfl⟩
  · split <;> exact ⟨rfl, rfl⟩

/-- A message is dispatched. -/
theorem Good.message {e : Event} (h : Good st) (hidle : st.control = .idle) (hadmitted : Admitted st e)
    (hundisturbed : Undisturbed st e) (hstep : message st e = some st') :
  Good st'
  := by
  obtain ⟨hwakeup, herror⟩ := h.idle hidle
  have hconsistent := h.consistent
  have hsettled : ∀ table, Settled { st with session_id_coroutine := table } := fun _ => .inl ⟨hwakeup, herror⟩
  cases e with
  | response session =>
      unfold DispatchMessage.message at hstep
      dsimp only at hstep
      cases hentry : st.session_id_coroutine session with
      | BREAK =>
          rw [hentry] at hstep
          obtain rfl := Option.some.inj hstep
          refine .ended ⟨hconsistent.linked.forget ?_, hconsistent.waits, hconsistent.calls⟩ (hsettled _)
          rw [hentry]
          nofun
      | nil =>
          rw [hentry] at hstep
          obtain rfl := Option.some.inj hstep
          exact .ended hconsistent (hsettled _)
      | co co =>
          rw [hentry] at hstep
          obtain rfl := Option.some.inj hstep
          have hsession := (hconsistent.linked.entry session co).mp hentry
          apply Good.resume
          · exact hconsistent.linked
          · exact update_co hsession nofun
          · exact hconsistent.linked.ne_of_session hsession
          · exact hconsistent.linked.nodup
          · exact hconsistent.waits.release _ rfl
          · apply hconsistent.calls.answer _ rfl
            intro session' call _ hmem
            rw [herror] at hmem
            contradiction
  | request co session source =>
      obtain ⟨hfree, hstep⟩ := Option.ite_none_right_eq_some.mp hstep
      obtain rfl := Option.some.inj hstep
      refine ⟨hconsistent.start hfree session source, ?_, nofun⟩
      intro co' frames hcontrol
      obtain ⟨rfl, -⟩ := Control.running.inj hcontrol
      apply Function.update_self
  | error co session source order =>
      obtain ⟨hfree, hstep⟩ := Option.ite_none_right_eq_some.mp hstep
      obtain rfl := Option.some.inj hstep
      have hstarted := (hconsistent.start hfree session source).error_dispatch herror hadmitted hundisturbed
      obtain ⟨hcontrol, hpoint⟩ := error_dispatch_frame (st.start co session source) session source order
      have hunused : Unused (error_dispatch (st.start co session source) session source order) .EXIT := trivial
      apply Good.suspend hstarted _ hcontrol hunused trivial
      rw [hpoint]
      apply Function.update_self
  | _ => cases hstep

/-- A coroutine takes a step. -/
theorem Good.act {frames : ℕ} {e : Event} (h : Good st) (hcontrol : st.control = .running co frames)
    (hadmitted : Admitted st e) (hundisturbed : Undisturbed st e) (hstep : act st co frames e = some st') :
  Good st'
  := by
  have hconsistent := h.consistent
  have hrunning := h.running co frames hcontrol
  have hidle : st.control ≠ .idle := by
    rw [hcontrol]
    nofun
  have hrun : ∀ co' frames', st.control = .running co' frames' → co' = co := by
    intro co' frames' hcontrol'
    obtain ⟨heq, -⟩ := Control.running.inj (hcontrol'.symm.trans hcontrol)
    exact heq
  have hother : ∀ {co'}, st.point co' = .free → co ≠ co' := by
    rintro co' hfree rfl
    rw [hrunning] at hfree
    contradiction
  cases e with
  | wakeup co' =>
      unfold DispatchMessage.act at hstep
      dsimp only at hstep
      cases hco' : st.point co' with
      | sleeping session wait in_wait =>
          rw [hco'] at hstep
          obtain rfl := Option.some.inj hstep
          refine ⟨⟨hconsistent.linked, ?_, hconsistent.calls⟩, h.running, fun hfree => absurd hfree hidle⟩
          apply hconsistent.waits.wakeup
          rw [hco']
          exact List.mem_singleton_self wait
      | _ =>
          rw [hco'] at hstep
          obtain rfl := Option.some.inj hstep
          exact h
  | fork co' =>
      obtain ⟨hfree, hstep⟩ := Option.ite_none_right_eq_some.mp hstep
      obtain rfl := Option.some.inj hstep
      refine ⟨⟨hconsistent.linked.fork hfree, ?_, ?_⟩, ?_, fun hnone => absurd hnone hidle⟩
      · apply hconsistent.waits.move _ rfl
        rw [hfree]
        rfl
      · apply hconsistent.calls.move _ rfl
        rw [hfree]
        rfl
      · intro co₁ frames₁ hcontrol₁
        rw [hrun co₁ frames₁ hcontrol₁]
        exact (Function.update_of_ne (hother hfree) _ _).trans hrunning
  | timeout session co' =>
      obtain ⟨hfree, hstep⟩ := Option.ite_none_right_eq_some.mp hstep
      obtain rfl := Option.some.inj hstep
      refine ⟨⟨?_, ?_, ?_⟩, ?_, fun hnone => absurd hnone hidle⟩
      · apply hconsistent.linked.await _ _ hadmitted rfl
        · rw [hfree]
          rfl
        · rw [hfree]
          nofun
      · apply hconsistent.waits.move _ rfl
        rw [hfree]
        rfl
      · apply hconsistent.calls.move _ rfl
        rw [hfree]
        rfl
      · intro co₁ frames₁ hcontrol₁
        rw [hrun co₁ frames₁ hcontrol₁]
        exact (Function.update_of_ne (hother hfree) _ _).trans hrunning
  | respond address =>
      obtain rfl := Option.some.inj hstep
      obtain ⟨services, heq⟩ := release_watching_eq st address
      rw [heq]
      exact ⟨⟨hconsistent.linked, hconsistent.waits, hconsistent.calls⟩, h.running, h.idle⟩
  | suspend command =>
      obtain rfl := Option.some.inj hstep
      exact .suspend hconsistent hrunning hcontrol hadmitted (hundisturbed co frames hcontrol)
  | _ => cases hstep

/-- A step that leaves nothing behind keeps the tables in order. -/
theorem Good.step {e : Event} (h : Good st) (hadmitted : Admitted st e) (hundisturbed : Undisturbed st e)
    (hstep : step st e = some st') :
  Good st'
  := by
  unfold DispatchMessage.step at hstep
  cases hcontrol : st.control with
  | idle =>
      rw [hcontrol] at hstep
      exact h.message hcontrol hadmitted hundisturbed hstep
  | loop =>
      rw [hcontrol] at hstep
      cases e with
      | forked co =>
          obtain ⟨hmem, hstep⟩ := Option.ite_none_right_eq_some.mp hstep
          obtain rfl := Option.some.inj hstep
          have hconsistent := h.consistent
          have hforked := hconsistent.linked.forked co hmem
          have hnodup := hconsistent.linked.nodup
          apply Good.resume
          · exact hconsistent.linked
          · intro session co'
            dsimp only
            rw [hforked]
            exact ⟨fun hentry => ⟨hentry, nofun⟩, And.left⟩
          · intro co' hco'
            obtain ⟨hne, hin⟩ := hnodup.mem_erase_iff.mp hco'
            exact ⟨hin, hne⟩
          · exact hnodup.erase co
          · exact hconsistent.waits.release _ rfl
          · apply hconsistent.calls.answer _ rfl
            intro session call hcalling
            rw [hforked] at hcalling
            contradiction
      | _ => cases hstep
  | running co frames =>
      rw [hcontrol] at hstep
      exact h.act hcontrol hadmitted hundisturbed hstep
  | suspend frames =>
      rw [hcontrol] at hstep
      cases e with
      | dispatch =>
          obtain rfl := Option.some.inj hstep
          exact .dispatch_wakeup h.consistent hundisturbed
      | _ => cases hstep

/-! ### Runs -/

theorem Good.started (h : Started st) :
  Good st
  := by
  have hwaits : ∀ co, (st.point co).waits = [] := by
    intro co
    rcases h.point co with hco | ⟨-, hco⟩ | ⟨session, hco⟩ <;> rw [hco] <;> rfl
  have hcalls : ∀ co, (st.point co).calls = [] := by
    intro co
    rcases h.point co with hco | ⟨-, hco⟩ | ⟨session, hco⟩ <;> rw [hco] <;> rfl
  refine ⟨⟨⟨?_, h.fork_queue.2, h.fork_queue.1⟩, ?_, ?_⟩, ?_, fun _ => ⟨h.wakeup_queue, h.error_queue⟩⟩
  · intro session co
    rw [h.linked]
    rcases h.point co with hco | ⟨-, hco⟩ | ⟨session', hco⟩
    · rw [hco]
      exact ⟨nofun, nofun⟩
    · rw [hco]
      exact ⟨nofun, nofun⟩
    · rw [hco, Point.timed.injEq, Point.session, Option.some.injEq]
  · rw [h.wakeup_queue, h.woken, h.resumed, h.broken]
    refine ⟨?_, ?_, nofun, List.nodup_nil, nofun, nofun⟩
    · intro co wait hmem
      rw [hwaits co] at hmem
      contradiction
    · intro co co' wait hmem
      rw [hwaits co] at hmem
      contradiction
  · rw [h.error_queue, h.doomed, h.failed]
    refine ⟨?_, ?_, nofun, List.nodup_nil, ?_, List.nodup_nil, nofun, nofun⟩
    · intro co call hmem
      rw [hcalls co] at hmem
      contradiction
    · intro co co' call hmem
      rw [hcalls co] at hmem
      contradiction
    · intro session service call hwatching
      rw [h.watching_session] at hwatching
      contradiction
  · intro co frames hcontrol
    rw [h.control] at hcontrol
    contradiction

/-- The queues are empty; every wait that was woken has ended once, `dispatch_wakeup` has ended no other wait, and
every call that was pending on a service that was reported dead has failed once. -/
structure Drained (st : State) : Prop where
  wakeup_queue : st.wakeup_queue = []
  error_queue : st.error_queue = []
  woken : ∀ wait ∈ st.woken, st.resumed.count wait = 1
  broken : ∀ wait ∈ st.broken, wait ∈ st.woken
  doomed : ∀ call ∈ st.doomed, st.failed.count call = 1

theorem Good.drained (h : Good st) (hidle : st.control = .idle) :
  Drained st
  := by
  obtain ⟨hwakeup, herror⟩ := h.idle hidle
  have hconsistent := h.consistent
  refine ⟨hwakeup, herror, ?_, hconsistent.waits.broken, ?_⟩
  · intro wait hmem
    apply List.count_eq_one_of_mem hconsistent.waits.nodup
    rcases hconsistent.waits.queued wait hmem with hresumed | ⟨co, queued, hqueued, -⟩
    · exact hresumed
    · rw [hwakeup] at hqueued
      contradiction
  · intro call hmem
    apply List.count_eq_one_of_mem hconsistent.calls.nodup
    rcases hconsistent.calls.doomed call hmem with hfailed | ⟨session, service, hqueued, -⟩
    · exact hfailed
    · rw [herror] at hqueued
      contradiction

/-- The service when it starts. -/
def fresh : State where
  control := .idle
  point _ := .free
  session_id_coroutine _ := .nil
  session_coroutine_id _ := none
  session_coroutine_address _ := none
  session_response _ := false
  wakeup_queue := []
  watching_service _ := none
  watching_session _ := none
  dead_service _ := false
  error_queue := []
  fork_queue := []
  waits := 0
  woken := []
  resumed := []
  broken := []
  calls := 0
  doomed := []
  failed := []

theorem started_fresh :
  Started fresh
  := by
  refine ⟨rfl, fun _ => .inl rfl, ?_, fun _ => rfl, rfl, rfl, ?_, rfl, rfl, rfl, rfl, rfl⟩
  · intro session co
    exact ⟨nofun, nofun⟩
  · exact ⟨List.nodup_nil, nofun⟩

theorem reaches_step {ok : State → Event → Prop} {e : Event} (h : machine.Reaches ok st)
    (hstep : step st e = some st') (hok : ok st e) :
  machine.Reaches ok st'
  := .step h hok hstep

end DispatchMessage

end Skynet
