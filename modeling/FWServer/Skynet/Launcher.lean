import FWServer.Kernel.Machine
import FWServer.Kernel.Tickets

/-!
# The launcher

`service/launcher.lua`: services are launched, confirm that they have started or report an error, and are
removed or killed.  Each request to launch one is replied to once.

A kill reaches the table of the launches as a message that `skynet.kill` sends to the launcher, so a
confirmation that is handled before that message still has the address of the service.
-/

namespace Skynet.Launcher

/-! ### The commands -/

/-- The tables of the launcher: the services by their handles, and under the handles of those that have not
confirmed yet the responses, which are known by numbers. -/
structure State where
  services : ℕ → Option String
  /-- `instance` -/
  instances : ℕ → Option ℕ

/-- A reply to a launch: whether it is one, and the address in it. -/
structure Answer where
  ok : Bool
  address : Option ℕ
  deriving DecidableEq

/-- What a command does besides: it calls a response, sends `REMOVE` of a handle with `kill` to the launcher,
kills a service, turns its log on, or returns a table of one entry. -/
inductive Effect where
  | response (number : ℕ) (answer : Answer)
  | remove (handle : ℕ)
  | kill (handle : ℕ)
  | logon (handle : ℕ)
  | ret (handle : ℕ) (text : String)
  deriving DecidableEq

/-- What a hexadecimal digit stands for. -/
def hexDigit (c : Char) : Option ℕ :=
  if '0' ≤ c ∧ c ≤ '9' then some (c.toNat - '0'.toNat)
  else if 'a' ≤ c ∧ c ≤ 'f' then some (c.toNat - 'a'.toNat + 10)
  else if 'A' ≤ c ∧ c ≤ 'F' then some (c.toNat - 'A'.toNat + 10)
  else none

/-- `handle_to_address`, of an address as `skynet.address` writes it. -/
def handle_to_address (handle : String) : Option ℕ :=
  match handle.toList.drop 1 with
  | [] => none
  | digits => digits.foldlM (fun n c => (hexDigit c).map fun d => 16 * n + d) 0

/-- `tostring(services[handle])` -/
def describe (s : State) (handle : ℕ) : String :=
  (s.services handle).getD "nil"

/-- `command.KILL`.  Without an address `skynet.kill` raises an error. -/
def KILL (handle : String) (s : State) : State × List Effect :=
  match handle_to_address handle with
  | none => (s, [])
  | some handle =>
      ({ s with services := Function.update s.services handle none },
        [.remove handle, .kill handle, .ret handle (describe s handle)])

/-- `command.REMOVE` -/
def REMOVE (handle : ℕ) (kill : Bool) (s : State) : State × List Effect :=
  let s := { s with services := Function.update s.services handle none }
  match s.instances handle with
  | some response =>
      ({ s with instances := Function.update s.instances handle none }, [.response response ⟨!kill, none⟩])
  | none => (s, [])

/-- `launch_service`: `inst` is what `skynet.launch` returns and `response` what `skynet.response` does. -/
def launch_service (service param : String) (inst : Option ℕ) (response : ℕ) (s : State) :
    State × List Effect :=
  match inst with
  | some inst =>
      (⟨Function.update s.services inst (some (service ++ " " ++ param)),
        Function.update s.instances inst (some response)⟩, [])
  | none => (s, [.response response ⟨false, none⟩])

/-- `command.LAUNCH` -/
def LAUNCH (service param : String) (inst : Option ℕ) (response : ℕ) (s : State) : State × List Effect :=
  launch_service service param inst response s

/-- `command.LOGLAUNCH` -/
def LOGLAUNCH (service param : String) (inst : Option ℕ) (response : ℕ) (s : State) : State × List Effect :=
  let (s, effects) := launch_service service param inst response s
  match inst with
  | some inst => (s, effects ++ [.logon inst])
  | none => (s, effects)

/-- `command.ERROR` -/
def ERROR (address : ℕ) (s : State) : State × List Effect :=
  match s.instances address with
  | some response =>
      (⟨Function.update s.services address none, Function.update s.instances address none⟩,
        [.response response ⟨false, none⟩])
  | none => ({ s with services := Function.update s.services address none }, [])

/-- `command.LAUNCHOK` -/
def LAUNCHOK (address : ℕ) (s : State) : State × List Effect :=
  match s.instances address with
  | some response =>
      ({ s with instances := Function.update s.instances address none },
        [.response response ⟨true, some address⟩])
  | none => (s, [])

/-- A message to the launcher.  What `skynet.launch` returns is given with it. -/
inductive Message where
  | LAUNCH (service param : String) (inst : Option ℕ)
  | LOGLAUNCH (service param : String) (inst : Option ℕ)
  | LAUNCHOK (address : ℕ)
  | ERROR (address : ℕ)
  | REMOVE (handle : ℕ) (kill : Bool)
  | KILL (handle : String)
  deriving DecidableEq

/-- The dispatch of a message; the response to a launch gets the number `response`. -/
def dispatch (response : ℕ) : Message → State → State × List Effect
  | .LAUNCH service param inst => LAUNCH service param inst response
  | .LOGLAUNCH service param inst => LOGLAUNCH service param inst response
  | .LAUNCHOK address => LAUNCHOK address
  | .ERROR address => ERROR address
  | .REMOVE handle kill => REMOVE handle kill
  | .KILL handle => KILL handle

/-- The message that a text command is handled as, if it is none that raises an error. -/
def ofText (address : ℕ) (cmd : String) : Option Message :=
  if cmd = "" then some (.LAUNCHOK address)
  else if cmd = "ERROR" then some (.ERROR address)
  else none

/-! ### The launcher with its queue -/

/-- The launcher, the handles of the messages it has sent to itself, the messages it has handled and the
responses it has called. -/
structure Process where
  launcher : State
  inbox : List ℕ
  handled : List Message
  replies : List (ℕ × Answer)

/-- The launcher handles a message of another service, a text command, or the next message of its own. -/
inductive Label where
  | lua (m : Message)
  | text (address : ℕ) (cmd : String)
  | own

/-- The handle of the service that has been launched. -/
def Message.launched : Message → Option ℕ
  | .LAUNCH _ _ inst | .LOGLAUNCH _ _ inst => inst
  | _ => none

/-- The launcher has launched nothing under the handle yet, if there is one. -/
def Process.fresh (p : Process) (inst : Option ℕ) : Bool :=
  inst.all fun h => p.handled.all fun m => m.launched ≠ some h

/-- The responses that have been called. -/
def responses (effects : List Effect) : List (ℕ × Answer) :=
  effects.filterMap fun
    | .response number answer => some (number, answer)
    | _ => none

/-- The messages that have been sent to the launcher. -/
def removals (effects : List Effect) : List ℕ :=
  effects.filterMap fun
    | .remove handle => some handle
    | _ => none

/-- Handles a message: the number of its response is that of the messages before. -/
def Process.handle (p : Process) (m : Message) : Process :=
  let (launcher, effects) := dispatch p.handled.length m p.launcher
  { launcher := launcher
    inbox := p.inbox ++ removals effects
    handled := p.handled ++ [m]
    replies := p.replies ++ responses effects }

/-- One message is handled.  Every handle that is launched is fresh. -/
def step (p : Process) : Label → Option Process
  | .lua m => if p.fresh m.launched then some (p.handle m) else none
  | .text address cmd => (ofText address cmd).map p.handle
  | .own =>
      match p.inbox with
      | [] => none
      | handle :: inbox => some ({ p with inbox := inbox }.handle (.REMOVE handle true))

/-- The launcher at its start. -/
def start : Process :=
  ⟨⟨fun _ => none, fun _ => none⟩, [], [], []⟩

/-- All runs of the launcher. -/
def machine : Machine Process Label where
  init p := p = start
  step := step

/-- What the response with a number has been called with. -/
def Process.answers (p : Process) (number : ℕ) : List Answer :=
  p.replies.filterMap fun x => if x.1 = number then some x.2 else none

/-! ### Launches that are answered -/

/-- The message is a launch. -/
def Message.launches : Message → Bool
  | .LAUNCH .. | .LOGLAUNCH .. => true
  | _ => false

/-- The message confirms the service, reports an error of it or removes it. -/
def Message.ends (h : ℕ) : Message → Bool
  | .LAUNCHOK address | .ERROR address => address = h
  | .REMOVE handle _ => handle = h
  | _ => false

/-- The message kills the service. -/
def Message.kills (h : ℕ) : Message → Bool
  | .KILL handle => handle_to_address handle = some h
  | _ => false

/-- Every launch is answered once. -/
structure Process.AnsweredOnce (p : Process) : Prop where
  /-- A launch that fails is refused at once. -/
  refused : ∀ before m after, p.handled = before ++ m :: after → m.launches = true → m.launched = none →
    p.answers before.length = [⟨false, none⟩]
  /-- A launch is answered once when its service has confirmed, reported an error or been removed. -/
  once : ∀ before m after h, p.handled = before ++ m :: after → m.launched = some h →
    (∃ m' ∈ after, m'.ends h = true) → (p.answers before.length).length = 1
  /-- Until then it is not answered. -/
  unanswered : ∀ before m after h, p.handled = before ++ m :: after → m.launched = some h →
    (∀ m' ∈ after, m'.ends h = false) → p.answers before.length = []
  /-- The address is answered only if the service has confirmed and has not been removed before. -/
  address : ∀ before m after h a, p.handled = before ++ m :: after → m.launched = some h →
    a ∈ p.answers before.length → a.address ≠ none → a = ⟨true, some h⟩ ∧
      ∃ after₁ after₂, after = after₁ ++ .LAUNCHOK h :: after₂ ∧ ∀ m' ∈ after₁, m'.ends h = false
  /-- A handle is kept as long as its launch is not answered. -/
  kept : ∀ h, p.launcher.instances h ≠ none ↔ ∃ before m after, p.handled = before ++ m :: after ∧
    m.launched = some h ∧ p.answers before.length = []
  /-- A launch is answered once when its service has been killed and the message of it has been handled. -/
  killed : ∀ before m after h, p.handled = before ++ m :: after → m.launched = some h →
    (∃ m' ∈ after, m'.kills h = true) → h ∉ p.inbox → (p.answers before.length).length = 1

/-! ### The commands as actions on requests -/

section Actions

open Tickets

/-- What a message does to the launches. -/
def Message.action : Message → Action ℕ Answer
  | .LAUNCH _ _ inst | .LOGLAUNCH _ _ inst =>
      match inst with
      | some h => .opens h
      | none => .refused ⟨false, none⟩
  | .LAUNCHOK address => .settles address ⟨true, some address⟩
  | .ERROR address => .settles address ⟨false, none⟩
  | .REMOVE handle kill => .settles handle ⟨!kill, none⟩
  | .KILL _ => .idle

theorem action_eq_opens_iff {m : Message} {h : ℕ} :
  m.action = .opens h ↔ m.launched = some h
  := by
  cases m with
  | LAUNCH _ _ inst | LOGLAUNCH _ _ inst => cases inst <;> simp [Message.action, Message.launched]
  | _ => exact iff_of_false (by rintro ⟨⟩) (by rintro ⟨⟩)

theorem settling_isSome (h : ℕ) (m : Message) :
  (settling h m.action).isSome = m.ends h
  := by
  cases m with
  | LAUNCH _ _ inst | LOGLAUNCH _ _ inst => cases inst <;> rfl
  | LAUNCHOK address | ERROR address | REMOVE address kill =>
      by_cases heq : address = h <;> simp [Message.action, settling, Message.ends, heq]
  | KILL handle => rfl

/-- A command changes the table of the launches and calls responses as its action says. -/
theorem dispatch_handle (n : ℕ) (m : Message) {s : State} {b : Book ℕ Answer}
    (h : s.instances = b.pending) :
  (dispatch n m s).1.instances = (b.handle n m.action).pending ∧
    b.replies ++ responses (dispatch n m s).2 = (b.handle n m.action).replies
  := by
  obtain ⟨services, instances⟩ := s
  subst h
  cases m with
  | LAUNCH service param inst | LOGLAUNCH service param inst =>
      cases inst with
      | none => exact ⟨rfl, rfl⟩
      | some inst => exact ⟨rfl, List.append_nil _⟩
  | LAUNCHOK address | ERROR address | REMOVE address kill =>
      dsimp only [dispatch, LAUNCHOK, ERROR, REMOVE, Message.action, Book.handle]
      cases b.pending address with
      | none => exact ⟨rfl, List.append_nil _⟩
      | some response => exact ⟨rfl, rfl⟩
  | KILL handle =>
      dsimp only [dispatch, KILL]
      cases handle_to_address handle with
      | none => exact ⟨rfl, List.append_nil _⟩
      | some handle => exact ⟨rfl, List.append_nil _⟩

/-! ### Runs -/

/-- The table of the launches and the calls of responses are what the messages have done to them, and every
handle that has been launched was fresh. -/
structure Process.Tracked (p : Process) : Prop where
  instances : p.launcher.instances = (book (p.handled.map Message.action)).pending
  replies : p.replies = (book (p.handled.map Message.action)).replies
  fresh : Fresh (p.handled.map Message.action)

/-- For every kill that has been handled its message to the launcher has been handled since, or is in the
queue. -/
def Process.KillsSent (p : Process) : Prop :=
  ∀ before k after h, p.handled = before ++ k :: after → k.kills h = true →
    .REMOVE h true ∈ after ∨ h ∈ p.inbox

theorem start_tracked :
  start.Tracked
  := ⟨rfl, rfl, History.ordered_nil⟩

theorem start_killsSent :
  start.KillsSent
  := by
  intro before k after h heq
  cases before <;> cases heq

/-- Messages that launch nothing are always fresh. -/
theorem fresh_of_none {p : Process} {m : Message} (h : m.launched = none) :
  p.fresh m.launched = true
  := by
  rw [h]
  rfl

theorem Process.Tracked.handle {p : Process} (hp : p.Tracked) {m : Message}
    (hfresh : p.fresh m.launched = true) :
  (p.handle m).Tracked
  := by
  have hmap : (p.handle m).handled.map Message.action = p.handled.map Message.action ++ [m.action] :=
    List.map_append
  have hlength : (p.handled.map Message.action).length = p.handled.length := List.length_map _
  obtain ⟨hinstances, hreplies⟩ := dispatch_handle p.handled.length m hp.instances
  constructor
  · rw [hmap, book_concat, hlength, ← hinstances]
    rfl
  · rw [hmap, book_concat, hlength, ← hreplies, ← hp.replies]
    rfl
  · rw [hmap]
    apply hp.fresh.concat
    intro h heq hmem
    obtain ⟨m', hm', haction⟩ := List.mem_map.mp hmem
    rw [action_eq_opens_iff.mp heq, Process.fresh, Option.all_some, List.all_eq_true] at hfresh
    exact of_decide_eq_true (hfresh m' hm') (action_eq_opens_iff.mp haction)

/-- A kill sends the message to the launcher. -/
theorem mem_removals_of_kills {n : ℕ} {m : Message} {h : ℕ} (hm : m.kills h = true) (s : State) :
  h ∈ removals (dispatch n m s).2
  := by
  cases m with
  | KILL handle =>
      have hhandle : handle_to_address handle = some h := of_decide_eq_true hm
      rw [dispatch, KILL, hhandle]
      apply List.mem_cons_self
  | _ => cases hm

/-- Handling a message leaves those of earlier kills handled or in the queue, but for the one it is. -/
theorem killsSent_handle {p : Process} {m : Message}
    (hp : ∀ before k after h, p.handled = before ++ k :: after → k.kills h = true →
      .REMOVE h true ∈ after ∨ h ∈ p.inbox ∨ m = .REMOVE h true) :
  (p.handle m).KillsSent
  := by
  intro before k after h heq hk
  obtain ⟨rfl, rfl, rfl⟩ | ⟨after', rfl, heq'⟩ := History.concat_cases heq
  · right
    apply List.mem_append_right _ (mem_removals_of_kills hk _)
  · obtain hmem | hmem | rfl := hp before k after' h heq' hk
    · exact .inl (List.mem_append_left _ hmem)
    · exact .inr (List.mem_append_left _ hmem)
    · exact .inl (List.mem_append_right _ (List.mem_singleton_self _))

theorem Process.KillsSent.handle {p : Process} (hp : p.KillsSent) (m : Message) :
  (p.handle m).KillsSent
  := by
  apply killsSent_handle
  intro before k after h heq hk
  obtain hmem | hmem := hp before k after h heq hk
  · exact .inl hmem
  · exact .inr (.inl hmem)

theorem ofText_launched {address : ℕ} {cmd : String} {m : Message} (h : ofText address cmd = some m) :
  m.launched = none
  := by
  unfold ofText at h
  split at h
  · cases h
    rfl
  · split at h
    · cases h
      rfl
    · cases h

/-- What one step preserves. -/
theorem tracked_step {p p' : Process} {l : Label} (hp : p.Tracked ∧ p.KillsSent)
    (hstep : step p l = some p') :
  p'.Tracked ∧ p'.KillsSent
  := by
  obtain ⟨htracked, hkills⟩ := hp
  cases l with
  | lua m =>
      rw [step] at hstep
      split at hstep
      · next hfresh =>
          obtain rfl := Option.some.inj hstep
          exact ⟨htracked.handle hfresh, hkills.handle m⟩
      · cases hstep
  | text address cmd =>
      obtain ⟨m, hm, rfl⟩ := Option.map_eq_some_iff.mp hstep
      exact ⟨htracked.handle (fresh_of_none (ofText_launched hm)), hkills.handle m⟩
  | own =>
      rw [step] at hstep
      split at hstep
      · cases hstep
      · next handle inbox hinbox =>
          obtain rfl := Option.some.inj hstep
          constructor
          · have hrest : ({ p with inbox := inbox } : Process).Tracked :=
              ⟨htracked.instances, htracked.replies, htracked.fresh⟩
            exact hrest.handle rfl
          · apply killsSent_handle
            intro before k after h heq hk
            obtain hmem | hmem := hkills before k after h heq hk
            · exact .inl hmem
            · rw [hinbox] at hmem
              rcases List.mem_cons.mp hmem with rfl | hmem
              · exact .inr (.inr rfl)
              · exact .inr (.inl hmem)

/-- What every run preserves. -/
theorem tracked_of_reachable {p : Process} (h : machine.Reachable p) :
  p.Tracked ∧ p.KillsSent
  := by
  apply Machine.invariant (P := fun p : Process => p.Tracked ∧ p.KillsSent) _ _ h
  · rintro _ rfl
    exact ⟨start_tracked, start_killsSent⟩
  · intro p l p' hp _ hstep
    apply tracked_step hp hstep

/-- The reply a message gives to the launch of a service. -/
def Message.settling (h : ℕ) (m : Message) : Option Answer :=
  Tickets.settling h m.action

theorem Process.Tracked.answers_eq {p : Process} (hp : p.Tracked) (n : ℕ) :
  p.answers n = (book (p.handled.map Message.action)).answers n
  := by rw [Process.answers, hp.replies, Book.answers]

/-- A launch has the reply of the first message since that gives one, and is kept until then. -/
theorem Process.Tracked.launched {p : Process} (hp : p.Tracked) {before after : List Message} {m : Message}
    {h : ℕ} (heq : p.handled = before ++ m :: after) (hm : m.launched = some h) :
  p.answers before.length = (after.findSome? (Message.settling h)).toList ∧
    p.launcher.instances h =
      if (after.findSome? (Message.settling h)).isSome then none else some before.length
  := by
  have hmap : p.handled.map Message.action =
      before.map Message.action ++ .opens h :: after.map Message.action := by
    rw [heq, List.map_append, List.map_cons, action_eq_opens_iff.mpr hm]
  have hopened := (settled_of_fresh hp.fresh).opened _ h _ hmap
  rw [List.length_map, List.findSome?_map, ← hp.instances, ← hp.answers_eq] at hopened
  exact hopened

theorem exists_settling_iff {h : ℕ} {after : List Message} :
  (after.findSome? (Message.settling h)).isSome = true ↔ ∃ m' ∈ after, m'.ends h = true
  := by
  rw [List.findSome?_isSome_iff]
  simp only [Message.settling, settling_isSome]

/-- The address is given by the confirmation alone. -/
theorem settling_address {h : ℕ} {m : Message} {a : Answer} (hm : m.settling h = some a)
    (ha : a.address ≠ none) :
  m = .LAUNCHOK h ∧ a = ⟨true, some h⟩
  := by
  cases m with
  | LAUNCH service param inst | LOGLAUNCH service param inst => cases inst <;> cases hm
  | LAUNCHOK address | ERROR address | REMOVE address kill =>
      dsimp only [Message.settling, Message.action, Tickets.settling] at hm
      split at hm
      · next heq =>
          obtain rfl := Option.some.inj hm
          first
            | exact absurd rfl ha
            | rw [heq]
              exact ⟨rfl, rfl⟩
      · cases hm
  | KILL handle => cases hm

section Launches

variable {p : Process} {before after : List Message} {m : Message} {h : ℕ}

theorem Process.Tracked.refused (hp : p.Tracked) (heq : p.handled = before ++ m :: after)
    (hm : m.launches = true) (hlaunched : m.launched = none) :
  p.answers before.length = [⟨false, none⟩]
  := by
  have haction : m.action = .refused ⟨false, none⟩ := by
    cases m with
    | LAUNCH service param inst | LOGLAUNCH service param inst =>
        obtain rfl : inst = none := hlaunched
        rfl
    | _ => cases hm
  have hmap : p.handled.map Message.action =
      before.map Message.action ++ .refused ⟨false, none⟩ :: after.map Message.action := by
    rw [heq, List.map_append, List.map_cons, haction]
  have hrefused := (settled_of_fresh hp.fresh).refused _ _ _ hmap
  rw [List.length_map, ← hp.answers_eq] at hrefused
  exact hrefused

theorem Process.Tracked.once (hp : p.Tracked) (heq : p.handled = before ++ m :: after)
    (hm : m.launched = some h) (hends : ∃ m' ∈ after, m'.ends h = true) :
  (p.answers before.length).length = 1
  := by
  obtain ⟨a, ha⟩ := Option.isSome_iff_exists.mp (exists_settling_iff.mpr hends)
  rw [(hp.launched heq hm).1, ha]
  rfl

theorem Process.Tracked.unanswered (hp : p.Tracked) (heq : p.handled = before ++ m :: after)
    (hm : m.launched = some h) (hends : ∀ m' ∈ after, m'.ends h = false) :
  p.answers before.length = []
  := by
  have hnone : after.findSome? (Message.settling h) = none := by
    rw [← Option.not_isSome_iff_eq_none, exists_settling_iff]
    rintro ⟨m', hm', hend⟩
    exact Bool.false_ne_true ((hends m' hm').symm.trans hend)
  rw [(hp.launched heq hm).1, hnone]
  rfl

theorem Process.Tracked.address (hp : p.Tracked) {a : Answer} (heq : p.handled = before ++ m :: after)
    (hm : m.launched = some h) (ha : a ∈ p.answers before.length) (haddress : a.address ≠ none) :
  a = ⟨true, some h⟩ ∧
    ∃ after₁ after₂, after = after₁ ++ .LAUNCHOK h :: after₂ ∧ ∀ m' ∈ after₁, m'.ends h = false
  := by
  rw [(hp.launched heq hm).1, Option.mem_toList] at ha
  obtain ⟨after₁, m', after₂, rfl, hm', hbefore⟩ := List.findSome?_eq_some_iff.mp ha
  obtain ⟨rfl, rfl⟩ := settling_address hm' haddress
  use rfl, after₁, after₂, rfl
  intro x hx
  rw [← settling_isSome, Option.isSome_eq_false_iff, Option.isNone_iff_eq_none]
  apply hbefore x hx

/-- A handle that is kept is that of a launch. -/
theorem Process.Tracked.launch_of_kept (hp : p.Tracked) {r : ℕ} (hr : p.launcher.instances h = some r) :
  ∃ before m after, p.handled = before ++ m :: after ∧ m.launched = some h
  := by
  rw [hp.instances] at hr
  obtain ⟨_, _, heq, -⟩ := (settled_of_fresh hp.fresh).kept h r hr
  obtain ⟨before, rest, hsplit, -, hrest⟩ := List.map_eq_append_iff.mp heq
  obtain ⟨m, after, rfl, hm, -⟩ := List.map_eq_cons_iff.mp hrest
  use before, m, after, hsplit, action_eq_opens_iff.mp hm

theorem Process.Tracked.kept_iff (hp : p.Tracked) :
  p.launcher.instances h ≠ none ↔ ∃ before m after, p.handled = before ++ m :: after ∧
    m.launched = some h ∧ p.answers before.length = []
  := by
  constructor
  · intro hne
    obtain ⟨r, hr⟩ := Option.ne_none_iff_exists'.mp hne
    obtain ⟨before, m, after, heq, hm⟩ := hp.launch_of_kept hr
    use before, m, after, heq, hm
    obtain ⟨hanswers, hinstances⟩ := hp.launched heq hm
    rw [hinstances] at hne
    cases hfirst : after.findSome? (Message.settling h) with
    | none =>
        rw [hanswers, hfirst]
        rfl
    | some a =>
        rw [hfirst] at hne
        exact absurd rfl hne
  · rintro ⟨before, m, after, heq, hm, hanswers⟩
    obtain ⟨hanswers', hinstances⟩ := hp.launched heq hm
    rw [hanswers, eq_comm, Option.toList_eq_nil_iff] at hanswers'
    rw [hinstances, hanswers']
    exact Option.some_ne_none _

/-- A service that has been killed is removed when the message of the kill is handled. -/
theorem Process.KillsSent.ends (hkills : p.KillsSent) (heq : p.handled = before ++ m :: after)
    (hkill : ∃ k ∈ after, k.kills h = true) (hinbox : h ∉ p.inbox) :
  ∃ m' ∈ after, m'.ends h = true
  := by
  obtain ⟨k, hk, hkill⟩ := hkill
  obtain ⟨after₁, after₂, rfl⟩ := List.append_of_mem hk
  have hsplit : p.handled = (before ++ m :: after₁) ++ k :: after₂ := by
    rw [heq, List.append_assoc, List.cons_append]
  obtain hmem | hmem := hkills _ k after₂ h hsplit hkill
  · use .REMOVE h true
    constructor
    · apply List.mem_append_right _ (List.mem_cons_of_mem _ hmem)
    · apply decide_eq_true rfl
  · exact absurd hmem hinbox

end Launches

end Actions

/-- In every run in which the handles that are launched are fresh, the launcher answers every launch once. -/
theorem launches_answered_once {p : Process} (h : machine.Reachable p) :
  p.AnsweredOnce
  := by
  obtain ⟨htracked, hkills⟩ := tracked_of_reachable h
  constructor
  · intro before m after heq hm hlaunched
    apply htracked.refused heq hm hlaunched
  · intro before m after h heq hm hends
    apply htracked.once heq hm hends
  · intro before m after h heq hm hends
    apply htracked.unanswered heq hm hends
  · intro before m after h a heq hm ha haddress
    apply htracked.address heq hm ha haddress
  · intro h
    apply htracked.kept_iff
  · intro before m after h heq hm hkill hinbox
    apply htracked.once heq hm (hkills.ends heq hkill hinbox)

/-- A service is launched and killed, and its launcher handles the message that the kill has sent. -/
def killedRun : List Label :=
  [.lua (.LAUNCH "snlua" "agent" (some 9)), .lua (.KILL ":00000009"), .own]

theorem launches_answered_once_killed :
  ∃ p, machine.exec start killedRun = some p ∧ p.AnsweredOnce ∧ p.answers 0 = [⟨false, none⟩]
  := by
  have hstart : machine.Reachable start := .init rfl
  refine ⟨_, rfl, ?_, rfl⟩
  exact launches_answered_once (hstart.exec killedRun rfl)

/-- Between the kill and its message a launch is not answered, and a confirmation is answered with the
address. -/
theorem killed_launch_confirmed :
  (¬ ∀ p, machine.Reachable p → ∀ before m after h, p.handled = before ++ m :: after →
    m.launched = some h → (∃ m' ∈ after, m'.ends h = true ∨ m'.kills h = true) →
    (p.answers before.length).length = 1) ∧
  ¬ ∀ p, machine.Reachable p → ∀ before m after h a, p.handled = before ++ m :: after →
    m.launched = some h → a ∈ p.answers before.length → a.address ≠ none →
    ∃ after₁ after₂, after = after₁ ++ .LAUNCHOK h :: after₂ ∧ ∀ m' ∈ after₁, m'.kills h = false
  := by
  have hstart : machine.Reachable start := .init rfl
  constructor
  · intro hclaim
    have hkill : (Message.KILL ":00000009").kills 9 = true := by decide
    have hrun := hstart.exec [.lua (.LAUNCH "snlua" "agent" (some 9)), .lua (.KILL ":00000009")] rfl
    have honce := hclaim _ hrun [] (.LAUNCH "snlua" "agent" (some 9)) [.KILL ":00000009"] 9 rfl rfl
      ⟨_, List.mem_singleton_self _, .inr hkill⟩
    exact absurd honce (by decide)
  · intro hclaim
    have hkill : (Message.KILL ":00000009").kills 9 = true := by decide
    have hrun := hstart.exec
      [.lua (.LAUNCH "snlua" "agent" (some 9)), .lua (.KILL ":00000009"), .lua (.LAUNCHOK 9)] rfl
    obtain ⟨after₁, after₂, heq, hbefore⟩ := hclaim _ hrun [] (.LAUNCH "snlua" "agent" (some 9))
      [.KILL ":00000009", .LAUNCHOK 9] 9 ⟨true, some 9⟩ rfl rfl (by decide) nofun
    cases after₁ with
    | nil => cases heq
    | cons x after₁ =>
        obtain ⟨rfl, -⟩ := List.cons.inj heq
        exact Bool.false_ne_true ((hbefore _ List.mem_cons_self).symm.trans hkill)

end Skynet.Launcher
