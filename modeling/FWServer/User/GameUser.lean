import FWServer.Kernel.Machine
import FWServer.Util.Timer

/-!
# Sessions of users

`gamelogic/user/init.lua`: which user is logged in on which connection.  A login binds the
user and the connection to each other and then loads the record of the user, a call to the
database that suspends it; other logins and logouts may come in between.  So a login is two
events, `bindUser` and `loadUser`, and a run is any sequence of events.
-/

namespace GameUser

variable {U F : Type} [DecidableEq U] [DecidableEq F]

/-- An entry of `g_gameuser.m_userInfoTab`. -/
structure UserInfo (U F : Type) where
  userId : U
  fd : F
  logouttimer : Option ℤ

/-- The tables of `g_gameuser`, for users `U` and connections `F`, and the timers, whose
callback `logoutUser` is given a connection. -/
structure State (U F : Type) where
  userToFdTab : U → Option F
  fdToUserIdTab : F → Option U
  userInfoTab : U → Option (UserInfo U F)
  timer : Timer.State F

/-- `G_USER_DISCONNECT_TIME` -/
def userDisconnectTime : ℤ := 5 * 60

def getSocketFdByUserId (userId : U) (s : State U F) : Option F :=
  s.userToFdTab userId

def getUserIdBySocketFd (fd : F) (s : State U F) : Option U :=
  s.fdToUserIdTab fd

/-- Removes the logout timer of a user, and starts a new one when `bReplaceTimer` is set. -/
def removeUserTimer (userId : U) (bReplaceTimer : Bool) (s : State U F) : State U F :=
  let s :=
    match s.userInfoTab userId with
    | some ⟨u, fd, some tid⟩ =>
        { s with
          timer := Timer.rmtimer tid s.timer
          userInfoTab := Function.update s.userInfoTab userId (some ⟨u, fd, none⟩) }
    | _ => s
  match bReplaceTimer, getSocketFdByUserId userId s with
  | true, some fd =>
      let (tid, timer) := Timer.addtimer userDisconnectTime fd s.timer
      { s with
        timer := timer
        userInfoTab := Function.update s.userInfoTab userId
          ((s.userInfoTab userId).map fun usertab => { usertab with logouttimer := tid }) }
  | _, _ => s

/-- A message arrived from a connection. -/
def onProtTimer (fd : F) (s : State U F) : State U F :=
  match getUserIdBySocketFd fd s with
  | none => s
  | some userId => removeUserTimer userId false s

/-- `g_gameuser.onLoginUser` up to the call that loads the record of the user. -/
def bindUser (fd : F) (userId : U) (s : State U F) : State U F :=
  { s with
    userToFdTab := Function.update s.userToFdTab userId (some fd)
    fdToUserIdTab := Function.update s.fdToUserIdTab fd (some userId) }

/-- `g_gameuser.onLoginUser` after the call that loads the record of the user. -/
def loadUser (fd : F) (userId : U) (s : State U F) : State U F :=
  onProtTimer fd
    { s with userInfoTab := Function.update s.userInfoTab userId (some ⟨userId, fd, none⟩) }

/-- `g_gameuser.onLogoutUser`, which a logout and a disconnect call. -/
def onLogoutUser (fd : F) (s : State U F) : State U F :=
  match s.fdToUserIdTab fd with
  | none => { s with fdToUserIdTab := Function.update s.fdToUserIdTab fd none }
  | some userId =>
      removeUserTimer userId false
        { s with
          userToFdTab := Function.update s.userToFdTab userId none
          fdToUserIdTab := Function.update s.fdToUserIdTab fd none }

/-- What happens to the sessions. -/
inductive Event (U F : Type) where
  | bindUser (fd : F) (userId : U)
  | loadUser (fd : F) (userId : U)
  | logoutUser (fd : F)
  | recvData (fd : F)

/-- The effect of an event. -/
def apply (s : State U F) : Event U F → State U F
  | .bindUser fd userId => bindUser fd userId s
  | .loadUser fd userId => loadUser fd userId s
  | .logoutUser fd => onLogoutUser fd s
  | .recvData fd => onProtTimer fd s

/-- No user is logged in. -/
def noSessions : State U F where
  userToFdTab _ := none
  fdToUserIdTab _ := none
  userInfoTab _ := none
  timer := ⟨fun _ => none, 0, []⟩

/-- The machine of all sequences of events. -/
def machine : Machine (State U F) (Event U F) where
  init s := s = noSessions
  step s e := some (apply s e)

/-! ### The session tables -/

omit [DecidableEq F] in
@[simp]
theorem removeUserTimer_userToFdTab (userId : U) (s : State U F) :
  (removeUserTimer userId false s).userToFdTab = s.userToFdTab
  := by
  simp only [removeUserTimer]
  split <;> rfl

omit [DecidableEq F] in
@[simp]
theorem removeUserTimer_fdToUserIdTab (userId : U) (s : State U F) :
  (removeUserTimer userId false s).fdToUserIdTab = s.fdToUserIdTab
  := by
  simp only [removeUserTimer]
  split <;> rfl

omit [DecidableEq F] in
@[simp]
theorem onProtTimer_userToFdTab (fd : F) (s : State U F) :
  (onProtTimer fd s).userToFdTab = s.userToFdTab
  := by
  unfold onProtTimer
  split
  · rfl
  · apply removeUserTimer_userToFdTab

omit [DecidableEq F] in
@[simp]
theorem onProtTimer_fdToUserIdTab (fd : F) (s : State U F) :
  (onProtTimer fd s).fdToUserIdTab = s.fdToUserIdTab
  := by
  unfold onProtTimer
  split
  · rfl
  · apply removeUserTimer_fdToUserIdTab

/-- A logout unbinds the user of the connection. -/
theorem onLogoutUser_userToFdTab (fd : F) (s : State U F) (u : U) :
  (onLogoutUser fd s).userToFdTab u
    = if s.fdToUserIdTab fd = some u then none else s.userToFdTab u
  := by
  unfold onLogoutUser
  split
  · next h => simp [h]
  · next userId h =>
      rw [removeUserTimer_userToFdTab, h]
      simp only [Function.update_apply, Option.some.injEq, eq_comm]

/-- A logout unbinds the connection. -/
theorem onLogoutUser_fdToUserIdTab (fd fd' : F) (s : State U F) :
  (onLogoutUser fd s).fdToUserIdTab fd'
    = if fd' = fd then none else s.fdToUserIdTab fd'
  := by
  unfold onLogoutUser
  split
  · apply Function.update_apply
  · rw [removeUserTimer_fdToUserIdTab]
    apply Function.update_apply

/-! ### Inverse tables -/

/-- A user's connection is that of the user. -/
def Inverse (s : State U F) : Prop :=
  ∀ u fd, s.userToFdTab u = some fd ↔ s.fdToUserIdTab fd = some u

/-- The disconnect of one connection leaves a user bound whose session is on another. -/
def DisconnectKeeps (s : State U F) : Prop :=
  ∀ u fd fd', s.userToFdTab u = some fd' → fd' ≠ fd →
    (onLogoutUser fd s).userToFdTab u = some fd'

/-- The event does not log in a user bound to another connection, nor on a connection bound to
another user. -/
def Unshared (s : State U F) : Event U F → Prop
  | .bindUser fd userId =>
      (∀ fd', s.userToFdTab userId = some fd' → fd' = fd) ∧
      (∀ u, s.fdToUserIdTab fd = some u → u = userId)
  | _ => True

omit [DecidableEq U] [DecidableEq F] in
theorem Inverse.noSessions :
  Inverse (noSessions : State U F)
  := fun _ _ => iff_of_false nofun nofun

/-- Inverse tables stay so at a disconnect. -/
theorem Inverse.disconnectKeeps {s : State U F} (h : Inverse s) :
  DisconnectKeeps s
  := by
  intro u fd fd' hu hne
  rw [onLogoutUser_userToFdTab, if_neg, hu]
  intro hfd
  have hfd' : s.userToFdTab u = some fd := (h u fd).mpr hfd
  rw [hu] at hfd'
  apply hne (Option.some.inj hfd')

/-- A login keeps the tables inverse precisely when neither side is bound elsewhere. -/
theorem Inverse.bindUser_iff {s : State U F} (h : Inverse s) (fd : F) (userId : U) :
  Inverse (bindUser fd userId s) ↔ Unshared s (.bindUser fd userId)
  := by
  constructor
  · intro h'
    constructor
    · intro fd' hfd'
      by_contra hne
      have hold : s.fdToUserIdTab fd' = some userId := (h userId fd').mp hfd'
      have hnew := (h' userId fd').mpr (by
        simp only [bindUser]
        rw [Function.update_of_ne hne, hold])
      simp only [bindUser, Function.update_self, Option.some.injEq] at hnew
      apply hne hnew.symm
    · intro u hu
      by_contra hne
      have hold : s.userToFdTab u = some fd := (h u fd).mpr hu
      have hnew := (h' u fd).mp (by
        simp only [bindUser]
        rw [Function.update_of_ne hne, hold])
      simp only [bindUser, Function.update_self, Option.some.injEq] at hnew
      apply hne hnew.symm
  · rintro ⟨huser, hfd⟩ u fd'
    simp only [bindUser, Function.update_apply]
    by_cases hu : u = userId
    · subst hu
      by_cases hf : fd' = fd
      · simp [hf]
      · have hnone : s.fdToUserIdTab fd' ≠ some u := fun h' => hf (huser fd' ((h u fd').mpr h'))
        simp [hf, hnone, Ne.symm hf]
    · by_cases hf : fd' = fd
      · subst hf
        have hnone : s.userToFdTab u ≠ some fd' := fun h' => hu (hfd u ((h u fd').mp h'))
        simp [hu, hnone, Ne.symm hu]
      · simp only [if_neg hu, if_neg hf]
        apply h

/-- A logout keeps the tables inverse. -/
theorem Inverse.onLogoutUser {s : State U F} (h : Inverse s) (fd : F) :
  Inverse (onLogoutUser fd s)
  := by
  intro u fd'
  rw [onLogoutUser_userToFdTab, onLogoutUser_fdToUserIdTab]
  by_cases hf : fd' = fd
  · subst hf
    by_cases hu : s.fdToUserIdTab fd' = some u
    · simp [hu]
    · have hnone : s.userToFdTab u ≠ some fd' := fun h' => hu ((h u fd').mp h')
      simp [hu, hnone]
  · by_cases hu : s.fdToUserIdTab fd = some u
    · have hnone : s.fdToUserIdTab fd' ≠ some u := by
        intro h'
        have hfd := (h u fd).mpr hu
        rw [(h u fd').mpr h'] at hfd
        apply hf (Option.some.inj hfd)
      simp [hf, hu, hnone]
    · simp only [if_neg hf, if_neg hu]
      apply h

/-- From inverse tables an event leads to inverse tables precisely when it is unshared. -/
theorem Inverse.apply_iff {s : State U F} (h : Inverse s) (e : Event U F) :
  Inverse (apply s e) ↔ Unshared s e
  := by
  cases e with
  | bindUser fd userId => exact h.bindUser_iff fd userId
  | loadUser fd userId =>
      apply iff_of_true _ trivial
      intro u fd'
      simp only [GameUser.apply, loadUser, onProtTimer_userToFdTab, onProtTimer_fdToUserIdTab]
      apply h
  | logoutUser fd => exact iff_of_true (h.onLogoutUser fd) trivial
  | recvData fd =>
      apply iff_of_true _ trivial
      intro u fd'
      simp only [GameUser.apply, onProtTimer_userToFdTab, onProtTimer_fdToUserIdTab]
      apply h

/-- A run keeps the session tables inverse, and every user bound whose session is not the one
disconnected, precisely when no login of it binds a user or a connection bound elsewhere. -/
theorem sessions_inverse_iff (es : List (Event U F)) :
  machine.Always (fun s => Inverse s ∧ DisconnectKeeps s) noSessions es
    ↔ machine.Guarded Unshared noSessions es
  := by
  apply Machine.always_iff_guarded _ ⟨Inverse.noSessions, Inverse.noSessions.disconnectKeeps⟩
  rintro s e s' ⟨hs, -⟩ hstep
  obtain rfl := Option.some.inj hstep
  constructor
  · rintro ⟨h', -⟩
    apply (hs.apply_iff e).mp h'
  · intro hok
    have h' := (hs.apply_iff e).mpr hok
    exact ⟨h', h'.disconnectKeeps⟩

/-- A user logs in on connection 1 and then on connection 2: connection 1 still holds the user,
and its disconnect unbinds the user from connection 2. -/
theorem second_login_unbound :
  let es : List (Event ℕ ℕ) := [.bindUser 1 7, .loadUser 1 7, .bindUser 2 7, .loadUser 2 7]
  ∃ s, machine.exec noSessions es = some s ∧ s.userToFdTab 7 = some 2 ∧
    s.fdToUserIdTab 1 = some 7 ∧ ¬ Inverse s ∧ (onLogoutUser 1 s).userToFdTab 7 = none
  := by
  refine ⟨_, rfl, rfl, rfl, ?_, rfl⟩
  intro h
  cases (h 7 1).mpr rfl

end GameUser
