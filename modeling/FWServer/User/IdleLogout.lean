import FWServer.User.GameUser
import FWServer.Util.Timeouts

/-!
# Logging out idle users

`gamelogic/user/init.lua`: a user who sends nothing for a while is to be logged out by a timer, which is started
at the login and again at every message.  Users and connections are numbers, and the callback `logoutUser`
takes the number it is given for a user.

`removeUserTimer` starts a timer only when it is told to, and no call of it does.  So no timer is ever
started, and a run has the timers it should have as long as no login returns with its user logged in.
-/

namespace GameUser

/-! ### Timers in time -/

/-- The sessions and the timers, the time in hundredths of a second, when the timer of an id was started and
when a user's last message came, the logins that load the record of the user, and the callbacks that wait
for a connection to be closed, with the user they were called for, their timer and its count. -/
structure Idle where
  users : State ℤ ℤ
  now : ℤ
  since : ℤ → ℤ
  lastMessage : ℤ → ℤ
  loading : List (ℤ × ℤ)
  running : List (ℤ × ℤ × ℤ)

/-- What may happen next. -/
inductive IdleEvent where
  | bindUser (fd userId : ℤ)
  | loadUser (fd userId : ℤ)
  | logoutUser (fd : ℤ)
  | recvData (fd : ℤ)
  | pass (t : ℕ)
  | expire (tid : ℤ) (connected : Bool)
  | closed (userId tid tcount : ℤ)

/-- The state after the sessions have changed: a timer that was started was started now. -/
def Idle.change (p : Idle) (users : State ℤ ℤ) : Idle :=
  { p with
    users := users
    since := fun tid =>
      if users.timer.pending ≠ p.users.timer.pending ∧ tid = users.timer.timerId then p.now
      else p.since tid }

/-- A message of the user of a connection has come. -/
def Idle.message (p : Idle) (fd : ℤ) : Idle :=
  match getUserIdBySocketFd fd p.users with
  | some userId => { p with lastMessage := Function.update p.lastMessage userId p.now }
  | none => p

/-- `logoutUser` up to the call that closes the connection.  When the connection has an agent, the watchdog
first notifies the script that it is closed. -/
def logoutUserStart (userId : ℤ) (connected : Bool) (s : State ℤ ℤ) : State ℤ ℤ :=
  match getSocketFdByUserId userId s with
  | some fd => if connected then onLogoutUser fd s else s
  | none => s

/-- The rest of `logoutUser`. -/
def logoutUserEnd (userId : ℤ) (s : State ℤ ℤ) : State ℤ ℤ :=
  let s := removeUserTimer userId false s
  { s with userInfoTab := Function.update s.userInfoTab userId none }

/-- A timeout expires, when its time has come, and the callback of `addtimer` calls `logoutUser`. -/
def expire (tid : ℤ) (connected : Bool) (p : Idle) : Option Idle :=
  match p.users.timer.pending.find? fun e => e.1 = tid with
  | none => none
  | some e =>
      if p.now < p.since tid + e.2.1 then none
      else
        let x := Timer.callfunc tid
          { p.users.timer with pending := p.users.timer.pending.erase e }
        let users := { p.users with timer := x.2 }
        match x.1 with
        | none => some { p with users := users }
        | some tcount =>
            some { p with
              users := logoutUserStart e.2.2 connected users
              running := (e.2.2, tid, tcount) :: p.running }

/-- The step function. -/
def idleStep (p : Idle) : IdleEvent → Option Idle
  | .bindUser fd userId =>
      some { p.change (bindUser fd userId p.users) with loading := (fd, userId) :: p.loading }
  | .loadUser fd userId =>
      if (fd, userId) ∈ p.loading then
        some { (p.change (loadUser fd userId p.users)) with
          lastMessage := Function.update p.lastMessage userId p.now
          loading := p.loading.erase (fd, userId) }
      else none
  | .logoutUser fd => some (p.change (onLogoutUser fd p.users))
  | .recvData fd => some ((p.message fd).change (onProtTimer fd p.users))
  | .pass t => some { p with now := p.now + t }
  | .expire tid connected => expire tid connected p
  | .closed userId tid tcount =>
      if (userId, tid, tcount) ∈ p.running then
        let users := logoutUserEnd userId p.users
        some { p with
          users := { users with timer := Timer.returned tid tcount users.timer }
          running := p.running.erase (userId, tid, tcount) }
      else none

/-- No user is logged in, and there is no timer. -/
def noUsers : Idle where
  users := noSessions
  now := 0
  since _ := 0
  lastMessage _ := 0
  loading := []
  running := []

/-- The machine of all runs. -/
def idleMachine : Machine Idle IdleEvent where
  init p := p = noUsers
  step := idleStep

/-! ### The timers there should be -/

/-- The pending timers that have not been removed and whose callback is given a user's id. -/
def logoutTimers (p : Idle) (userId : ℤ) : List (ℤ × ℤ × ℤ) :=
  p.users.timer.pending.filter fun e => e.2.2 = userId ∧ (p.users.timer.tab e.1).isSome

/-- Every user logged in has one timer, which was started at the last message, and the others have none. -/
structure TimersRight (p : Idle) : Prop where
  bound : ∀ u, p.users.userToFdTab u ≠ none → (∀ fd, (fd, u) ∉ p.loading) →
    ∃ tid, logoutTimers p u = [(tid, userDisconnectTime * 100, u)] ∧ p.since tid = p.lastMessage u
  unbound : ∀ u, p.users.userToFdTab u = none → logoutTimers p u = []

/-- The event is not a login that returns with its user logged in, unless the user has another one that has
not returned. -/
def NoLogin (p : Idle) : IdleEvent → Prop
  | .loadUser fd userId =>
      p.users.userToFdTab userId ≠ none → ∃ fd', (fd', userId) ∈ p.loading.erase (fd, userId)
  | _ => True

/-! ### No timer is started -/

/-- No timer is pending, and no callback is running. -/
def Unarmed (p : Idle) : Prop :=
  p.users.timer.pending = [] ∧ p.running = []

section Frames

variable {U F : Type} [DecidableEq U] [DecidableEq F] (s : State U F)

theorem rmtimer_pending {φ : Type} (tid : ℤ) (t : Timer.State φ) :
  (Timer.rmtimer tid t).pending = t.pending
  := by
  unfold Timer.rmtimer
  split
  · rfl
  · rfl

omit [DecidableEq F] in
theorem removeUserTimer_pending (userId : U) :
  (removeUserTimer userId false s).timer.pending = s.timer.pending
  := by
  unfold removeUserTimer
  dsimp only
  split
  · apply rmtimer_pending
  · rfl

omit [DecidableEq F] in
theorem onProtTimer_pending (fd : F) :
  (onProtTimer fd s).timer.pending = s.timer.pending
  := by
  unfold onProtTimer
  split
  · rfl
  · apply removeUserTimer_pending

theorem onLogoutUser_pending (fd : F) :
  (onLogoutUser fd s).timer.pending = s.timer.pending
  := by
  unfold onLogoutUser
  split
  · rfl
  · apply removeUserTimer_pending

end Frames

theorem Unarmed.step {p p' : Idle} (h : Unarmed p) {e : IdleEvent} (hstep : idleStep p e = some p') :
  Unarmed p'
  := by
  obtain ⟨hpending, hrunning⟩ := h
  cases e with
  | bindUser fd userId =>
      obtain rfl := Option.some.inj hstep
      use hpending, hrunning
  | loadUser fd userId =>
      dsimp only [idleStep] at hstep
      split at hstep
      · obtain rfl := Option.some.inj hstep
        use (onProtTimer_pending _ fd).trans hpending, hrunning
      · cases hstep
  | logoutUser fd =>
      obtain rfl := Option.some.inj hstep
      use (onLogoutUser_pending _ fd).trans hpending, hrunning
  | recvData fd =>
      obtain rfl := Option.some.inj hstep
      use (onProtTimer_pending _ fd).trans hpending
      unfold Idle.message
      split
      · exact hrunning
      · exact hrunning
  | pass t =>
      obtain rfl := Option.some.inj hstep
      use hpending, hrunning
  | expire tid connected =>
      dsimp only [idleStep, expire] at hstep
      rw [hpending, List.find?_nil] at hstep
      cases hstep
  | closed userId tid tcount =>
      dsimp only [idleStep] at hstep
      rw [hrunning, if_neg List.not_mem_nil] at hstep
      cases hstep

/-- Without timers, what should be is that every user logged in has a login that has not returned. -/
theorem timersRight_iff {p : Idle} (h : Unarmed p) :
  TimersRight p ↔ ∀ u, p.users.userToFdTab u ≠ none → ∃ fd, (fd, u) ∈ p.loading
  := by
  have hnone : ∀ u, logoutTimers p u = [] := by
    intro u
    rw [logoutTimers, h.1, List.filter_nil]
  constructor
  · intro hright u hu
    by_contra hloading
    obtain ⟨tid, htimer, -⟩ := hright.bound u hu (fun fd hfd => hloading ⟨fd, hfd⟩)
    rw [hnone] at htimer
    cases htimer
  · intro hloading
    constructor
    · intro u hu hlogin
      obtain ⟨fd, hfd⟩ := hloading u hu
      exact absurd hfd (hlogin fd)
    · intro u _
      apply hnone

/-- A step from the right timers leads to the right timers precisely when it is not a login that returns
with its user logged in. -/
theorem TimersRight.step_iff {p p' : Idle} (h : TimersRight p) (hunarmed : Unarmed p) {e : IdleEvent}
    (hstep : idleStep p e = some p') :
  TimersRight p' ↔ NoLogin p e
  := by
  have hloading := (timersRight_iff hunarmed).mp h
  rw [timersRight_iff (hunarmed.step hstep)]
  cases e with
  | bindUser fd userId =>
      apply iff_of_true _ trivial
      obtain rfl := Option.some.inj hstep
      intro u hu
      rcases eq_or_ne u userId with rfl | hne
      · use fd
        apply List.mem_cons_self
      · change Function.update p.users.userToFdTab userId (some fd) u ≠ none at hu
        rw [Function.update_of_ne hne] at hu
        obtain ⟨fd', hfd'⟩ := hloading u hu
        use fd'
        apply List.mem_cons_of_mem _ hfd'
  | loadUser fd userId =>
      dsimp only [idleStep] at hstep
      split at hstep
      · obtain rfl := Option.some.inj hstep
        have htab : (loadUser fd userId p.users).userToFdTab = p.users.userToFdTab := by
          apply onProtTimer_userToFdTab
        change (∀ u, (loadUser fd userId p.users).userToFdTab u ≠ none →
          ∃ fd', (fd', u) ∈ p.loading.erase (fd, userId)) ↔ _
        rw [htab]
        constructor
        · intro hall
          apply hall
        · intro hlogin u hu
          rcases eq_or_ne u userId with rfl | hne
          · apply hlogin hu
          · obtain ⟨fd', hfd'⟩ := hloading u hu
            use fd'
            apply (List.mem_erase_of_ne _).mpr hfd'
            exact fun heq => hne (Prod.mk.inj heq).2
      · cases hstep
  | logoutUser fd =>
      apply iff_of_true _ trivial
      obtain rfl := Option.some.inj hstep
      intro u hu
      apply hloading u
      intro hnone
      apply hu
      have htab := onLogoutUser_userToFdTab fd p.users u
      rw [hnone, ite_self] at htab
      exact htab
  | recvData fd =>
      apply iff_of_true _ trivial
      obtain rfl := Option.some.inj hstep
      intro u hu
      have htab : (onProtTimer fd p.users).userToFdTab = p.users.userToFdTab :=
        onProtTimer_userToFdTab fd p.users
      change (onProtTimer fd p.users).userToFdTab u ≠ none at hu
      rw [htab] at hu
      change ∃ fd', (fd', u) ∈ (p.message fd).loading
      have hmessage : (p.message fd).loading = p.loading := by
        unfold Idle.message
        split
        · rfl
        · rfl
      rw [hmessage]
      apply hloading u hu
  | pass t =>
      apply iff_of_true _ trivial
      obtain rfl := Option.some.inj hstep
      exact hloading
  | expire tid connected =>
      dsimp only [idleStep, expire] at hstep
      rw [hunarmed.1, List.find?_nil] at hstep
      cases hstep
  | closed userId tid tcount =>
      dsimp only [idleStep] at hstep
      rw [hunarmed.2, if_neg List.not_mem_nil] at hstep
      cases hstep

theorem noUsers_unarmed :
  Unarmed noUsers
  := ⟨rfl, rfl⟩

theorem noUsers_timersRight :
  TimersRight noUsers
  := (timersRight_iff noUsers_unarmed).mpr fun _ hu => absurd rfl hu

/-- A run has the right timers throughout precisely when no login of it returns with its user logged in. -/
theorem idle_timers_right_iff (es : List IdleEvent) :
  idleMachine.Always TimersRight noUsers es ↔ idleMachine.Guarded NoLogin noUsers es
  := by
  have hguarded : idleMachine.Always (fun p => TimersRight p ∧ Unarmed p) noUsers es ↔
      idleMachine.Guarded NoLogin noUsers es := by
    apply Machine.always_iff_guarded _ ⟨noUsers_timersRight, noUsers_unarmed⟩
    rintro p e p' ⟨hright, hunarmed⟩ hstep
    rw [and_iff_left (hunarmed.step hstep)]
    apply hright.step_iff hunarmed hstep
  rw [← hguarded]
  constructor
  · intro h
    apply h.strengthen _ ⟨noUsers_timersRight, noUsers_unarmed⟩
    rintro p e p' ⟨-, hunarmed⟩ hstep hright
    use hright
    apply hunarmed.step hstep
  · intro h
    apply h.mono
    exact fun p hp => hp.1

/-- A user logs in and has no timer. -/
theorem login_without_timer :
  ¬ ∀ p, idleMachine.Reachable p → TimersRight p
  := by
  intro h
  let es : List IdleEvent := [.bindUser 1 7, .loadUser 1 7]
  obtain ⟨p, hp⟩ : ∃ p, idleMachine.exec noUsers es = some p := ⟨_, rfl⟩
  have hreach : idleMachine.Reachable p := Machine.Reachable.exec es (.init rfl) hp
  obtain rfl := Option.some.inj hp
  obtain ⟨tid, htimer, -⟩ := (h _ hreach).bound 7 nofun (fun fd => List.not_mem_nil)
  cases htimer

end GameUser
