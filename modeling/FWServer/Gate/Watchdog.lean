import FWServer.Kernel.System
import FWServer.User.GameUser
import Mathlib.Data.List.AList

/-!
# The agents of the watchdog

`services/skynet/watchdog.lua`: the table of the agents of the connections, and the coroutines that
open and close connections.  They suspend when they start an agent and when they call the gate.

The table is a variable that is assigned a new table when all connections have been closed, while
coroutines may still be going through the old one.
-/

namespace Watchdog

/-! ### The process -/

/-- A table of agents by connection, and how often a key has been added to it. -/
structure Tab where
  entries : AList fun _ : ℕ => ℕ
  grown : ℕ

/-- The tables created so far, those numbered below `next`, the one that is `agent`, and the sessions
of the users. -/
structure Process where
  tabs : ℕ → Tab
  agent : ℕ
  next : ℕ
  users : GameUser.State ℕ ℕ

/-- What the watchdog calls: the launcher, an agent and the gate. -/
inductive Query where
  | newservice
  | start (a fd : ℕ) (addr : String)
  | forward (fd a : ℕ) (addr : String)
  | kick (fd : ℕ)
  deriving DecidableEq

/-- What a call returns: the address of a new service, or nothing that is read. -/
inductive Answer where
  | handle (a : ℕ)
  | done
  deriving DecidableEq

/-- What the watchdog sends: to the broadcast service, and to an agent. -/
inductive Message where
  | broadcastDisconnect (fd : ℕ)
  | disconnect (a : ℕ)
  deriving DecidableEq

/-- The interface of the watchdog. -/
abbrev interface : Interface where
  State := Process
  Query := Query
  Reply := Except String Answer
  Output := Message
  Error := String

end Watchdog

/-- A coroutine of the watchdog. -/
abbrev Watchdog (α : Type) : Type := Coroutine Watchdog.interface α

namespace Watchdog

/-- What a call makes of the reply. -/
def ofReply : Except String Answer → Watchdog Answer
  | .ok a => .ret a
  | .error e => .raise e

/-- The table `agent`. -/
def Process.agents (p : Process) : Tab :=
  p.tabs p.agent

/-- `agent[fd]` -/
def Process.agentOf (p : Process) (fd : ℕ) : Option ℕ :=
  p.agents.entries.lookup fd

/-- The process after `agent[fd] = a`. -/
def Process.store (p : Process) (fd a : ℕ) : Process :=
  let added := if (p.agentOf fd).isNone then 1 else 0
  { p with
    tabs := Function.update p.tabs p.agent
      ⟨p.agents.entries.insert fd a, p.agents.grown + added⟩ }

/-- The process after `agent[fd] = nil`. -/
def Process.clear (p : Process) (fd : ℕ) : Process :=
  { p with
    tabs := Function.update p.tabs p.agent ⟨p.agents.entries.erase fd, p.agents.grown⟩ }

/-- The process after `agent = {}`. -/
def Process.renew (p : Process) : Process :=
  { p with
    tabs := Function.update p.tabs p.next ⟨∅, 0⟩
    agent := p.next
    next := p.next + 1 }

/-! ### Closing connections -/

/-- `WATCHDOG.notifyDisiconnected` -/
def notifyDisiconnected (fd : ℕ) : Watchdog Unit :=
  .read fun p : Process => .write { p with users := GameUser.onLogoutUser fd p.users } <|
    .emit (.broadcastDisconnect fd) (.ret ())

/-- `close_agent` once the gate has kicked the connection. -/
def kicked (a : ℕ) : Except String Answer → Watchdog Unit :=
  fun r => ofReply r >>= fun _ => .emit (.disconnect a) (.ret ())

/-- `close_agent` -/
def closeAgent (fd : ℕ) : Watchdog Unit :=
  .read fun p : Process => .write (p.clear fd) <|
    match p.agentOf fd with
    | none => .ret ()
    | some a => notifyDisiconnected fd >>= fun _ => .call (.kick fd) (kicked a)

/-- Whether `next` may go on to the key `fd` of the table `tab` after the keys `visited`.  A key may be
visited that is there; when keys have been added since the loop began, by `grown`, it may be any. -/
def mayVisit (p : Process) (tab grown : ℕ) (visited : List ℕ) (fd : ℕ) : Bool :=
  (p.tabs tab).entries.keys.contains fd &&
    (!visited.contains fd || (p.tabs tab).grown != grown)

/-- Whether `next` may come to an end after the keys `visited`.  When keys have been added since the
loop began it may miss some. -/
def mayEnd (p : Process) (tab grown : ℕ) (visited : List ℕ) : Bool :=
  (p.tabs tab).entries.keys.all (visited.contains ·) || (p.tabs tab).grown != grown

/-- The rest of the loop of `closeSocket` over the keys of the table `tab`, and then `agent = {}`.  What
`next` gives is in `visits`: keys, and `none` at the end. -/
def closeRest (tab grown : ℕ) : List ℕ → List (Option ℕ) → Watchdog Unit
  | _, [] => Coroutine.error "invalid key to 'next'"
  | visited, none :: _ =>
      .read fun p : Process =>
        if mayEnd p tab grown visited then .write p.renew (.ret ())
        else Coroutine.error "invalid key to 'next'"
  | visited, some fd :: visits =>
      .read fun p : Process =>
        if mayVisit p tab grown visited fd then
          closeAgent fd >>= fun _ => closeRest tab grown (fd :: visited) visits
        else Coroutine.error "invalid key to 'next'"

/-- `closeSocket` -/
def closeSocket (fd : Option ℕ) (visits : List (Option ℕ)) : Watchdog Unit :=
  match fd with
  | some fd => closeAgent fd
  | none => .read fun p : Process => closeRest p.agent p.agents.grown [] visits

/-! ### Opening connections -/

/-- `SOCKET.open` once the agent has started. -/
def started (fd a : ℕ) (addr : String) : Except String Answer → Watchdog Unit :=
  fun r => ofReply r >>= fun _ => .call (.forward fd a addr) fun r => ofReply r >>= fun _ => .ret ()

/-- `SOCKET.open` once there is an agent. -/
def opened (fd : ℕ) (addr : String) : Except String Answer → Watchdog Unit :=
  fun r => ofReply r >>= fun
    | .handle a => .read fun p : Process => .write (p.store fd a) <|
        .call (.start a fd addr) (started fd a addr)
    | .done => .raise "attempt to send to nil"

/-- `SOCKET.open` -/
def socketOpen (fd : ℕ) (addr : String) : Watchdog Unit :=
  .call .newservice (opened fd addr)

/-! ### The system -/

/-- What the watchdog is asked to do.  `closeSocket` is given what `next` gives its loop. -/
inductive Job where
  | open (fd : ℕ) (addr : String)
  | close (fd : ℕ)
  | error (fd : ℕ) (msg : String)
  | closeSocket (fd : Option ℕ) (visits : List (Option ℕ))

/-- The coroutine of a job. -/
def code : Job → Watchdog Unit
  | .open fd addr => socketOpen fd addr
  | .close fd => closeAgent fd
  | .error fd _ => closeAgent fd
  | .closeSocket fd visits => closeSocket fd visits

/-- The services around the watchdog: how many agents have been created, the calls of the watchdog, and
what it has sent. -/
structure Services where
  agents : ℕ
  slots : Slots interface
  sent : List Message

/-- What happens around the watchdog: a message asks it to do something, a call is served, or a service
raises an error. -/
inductive Event where
  | request (j : Job)
  | serve (n : ℕ)
  | fail (n : ℕ) (e : String)

/-- A step of the services.  The gate does not fail to kick. -/
def react (e : Event) (w : Services) : Option (Services × Option Job) :=
  match e with
  | .request j => some (w, some j)
  | .serve n =>
      (w.slots.asked n).map fun
        | .newservice =>
            ({ w with
              agents := w.agents + 1
              slots := w.slots.answer n (.ok (.handle w.agents)) }, none)
        | _ => ({ w with slots := w.slots.answer n (.ok .done) }, none)
  | .fail n e =>
      (w.slots.asked n).bind fun
        | .kick _ => none
        | _ => some ({ w with slots := w.slots.answer n (.error e) }, none)

/-- The watchdog and the services around it. -/
def system : System interface Unit Services Job Event Unit where
  home _ := ()
  code := code
  issue n _ q w := { w with slots := w.slots.ask n q }
  send _ o w := { w with sent := w.sent ++ [o] }
  finish _ _ w := w
  react := react
  collect n w := (w.slots.collect n).map fun (r, slots) => (r, { w with slots := slots })

/-- A state of the system. -/
abbrev State : Type := System.State interface Unit Services Job Unit

/-- There are no connections yet. -/
structure Started (s : State) : Prop where
  entries : (s.process ()).agents.entries = ∅
  agents : s.network.agents = 0
  slots : ∀ n, s.network.slots n = none
  sent : s.network.sent = []
  started : s.started = []
  waiting : ∀ n, s.waiting n = none

end Watchdog
