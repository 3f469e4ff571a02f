import FWServer.Kernel.System
import FWServer.Lua.Value
import Mathlib.Data.Nat.Notation

/-!
# The cluster service

`services/skynet/cluster.lua`: on every node a service that sends messages to the cluster services of
other nodes and passes the messages it receives to an agent.  A node is named by its key.  The service
keeps the proxies of the services of other nodes in `clustertab`, and the agents it has created, one for
each node that has connected, in `agenttab`.

Nodes are linked by queues.  A link carries the requests of one node to another in order; the reply to a
call is not bound to that order.
-/

namespace Cluster

/-! ### The process -/

/-- The proxy of the cluster service of a node. -/
structure Proxy where
  node : String
  deriving DecidableEq

/-- The variables of the service. -/
structure Process where
  selfclukey : String
  clustertab : String → Option Proxy
  agenttab : String → Option ℕ
  WATCHDOG : ℕ

/-- What an agent is started with. -/
structure Conf where
  client : String
  watchdog : ℕ
  iscluster : Bool
  deriving DecidableEq

/-- What a call returns: the address of the service registered at a node, which is given by the node, a
proxy, the address of a new service, or nothing that is read. -/
inductive Answer where
  | address (node : String)
  | proxy (p : Proxy)
  | handle (a : ℕ)
  | done
  deriving DecidableEq

/-- What the service calls: the cluster library, the launcher, an agent, and the cluster service of
another node. -/
inductive Query where
  | query (node name : String)
  | proxy (node : String) (address : Answer)
  | newservice
  | startcluster (a : ℕ) (conf : Conf)
  | open (asrc : Proxy) (clukey : String)
  deriving DecidableEq

/-- What the service sends: to the cluster service of another node, and to an agent. -/
inductive Message where
  | data (asrc : Proxy) (clukey : String) (msgData : Lua.Value)
  | recvcluster (a : ℕ) (msgData : Lua.Value)

/-- The interface of the service. -/
abbrev interface : Interface where
  State := Process
  Query := Query
  Reply := Except String Answer
  Output := Message
  Error := String

end Cluster

/-- A coroutine of the cluster service. -/
abbrev Cluster (α : Type) : Type := Coroutine Cluster.interface α

namespace Cluster

/-- `registerKey` -/
def registerKey : String :=
  "gamecluster"

/-- What a call makes of the reply. -/
def ofReply : Except String Answer → Cluster Answer
  | .ok a => .ret a
  | .error e => .raise e

/-- The process after `agenttab[clukey] = a`. -/
def Process.setAgent (p : Process) (clukey : String) (a : ℕ) : Process :=
  { p with agenttab := Function.update p.agenttab clukey (some a) }

/-- The process after `clustertab[clukey] = asrc`. -/
def Process.setCluster (p : Process) (clukey : String) (asrc : Proxy) : Process :=
  { p with clustertab := Function.update p.clustertab clukey (some asrc) }

/-! ### Agents -/

/-- `openAgent` once the agent has started. -/
def agentStarted : Except String Answer → Cluster Unit :=
  fun r => ofReply r >>= fun _ => .ret ()

/-- `openAgent` once there is an agent. -/
def agentCreated (clukey : String) : Except String Answer → Cluster Unit :=
  fun r => ofReply r >>= fun
    | .handle a => .read fun p : Process => .write (p.setAgent clukey a) <|
        .call (.startcluster a ⟨clukey, p.WATCHDOG, true⟩) agentStarted
    | _ => .raise "attempt to call nil"

/-- `openAgent` -/
def openAgent (clukey : String) : Cluster Unit :=
  .call .newservice (agentCreated clukey)

/-- `sendAgentMsg` -/
def sendAgentMsg (clukey : String) (msgData : Lua.Value) : Cluster Unit :=
  .read fun p : Process =>
    match p.agenttab clukey with
    | none => .ret ()
    | some a => if msgData.truthy then .emit (.recvcluster a msgData) (.ret ()) else .ret ()

/-- `SOCKET.open` -/
def socketOpen (clukey : String) : Cluster Unit :=
  openAgent clukey

/-- `SOCKET.data` -/
def socketData (clukey : String) (msgData : Lua.Value) : Cluster Unit :=
  sendAgentMsg clukey msgData

/-! ### Sending -/

/-- The last statement of `CMD.send`. -/
def sendData (asrc : Proxy) (msgData : Lua.Value) : Cluster Unit :=
  .read fun p : Process => .emit (.data asrc p.selfclukey msgData) (.ret ())

/-- `CMD.send` once the other side has been opened. -/
def connected (asrc : Proxy) (msgData : Lua.Value) : Except String Answer → Cluster Unit :=
  fun r => ofReply r >>= fun _ => sendData asrc msgData

/-- `CMD.send` once there is a proxy. -/
def proxied (clukey : String) (msgData : Lua.Value) : Except String Answer → Cluster Unit :=
  fun r => ofReply r >>= fun
    | .proxy asrc => .read fun p : Process => .write (p.setCluster clukey asrc) <|
        .call (.open asrc p.selfclukey) (connected asrc msgData)
    | _ => .raise ("cluster [" ++ clukey ++ "] can not Open!")

/-- `CMD.send` once the address of the other service is known. -/
def queried (clukey : String) (msgData : Lua.Value) : Except String Answer → Cluster Unit :=
  fun r => ofReply r >>= fun tt => .call (.proxy clukey tt) (proxied clukey msgData)

/-- `CMD.send` -/
def send (clukey : String) (msgData : Lua.Value) : Cluster Unit :=
  .read fun p : Process =>
    if p.selfclukey = clukey then sendAgentMsg clukey msgData
    else
      match p.clustertab clukey with
      | some asrc => sendData asrc msgData
      | none => .call (.query clukey registerKey) (queried clukey msgData)

/-! ### The system -/

/-- What a link carries: the call of the coroutine `n`, and a message. -/
inductive Packet where
  | open (n : ℕ) (clukey : String)
  | data (clukey : String) (msgData : Lua.Value)

/-- What the service of the node `node` is asked to do.  `open` is the call of the coroutine `n`. -/
inductive Job where
  | send (node clukey : String) (msgData : Lua.Value)
  | open (node clukey : String) (n : ℕ)
  | data (node clukey : String) (msgData : Lua.Value)

/-- The node a job is done at. -/
def Job.node : Job → String
  | .send node _ _ => node
  | .open node _ _ => node
  | .data node _ _ => node

/-- The sender and the receiver of what a job is about. -/
def Job.route : Job → String × String
  | .send node clukey _ => (node, clukey)
  | .open node clukey _ => (clukey, node)
  | .data node clukey _ => (clukey, node)

/-- The job a packet asks the service of `node` to do. -/
def Packet.job (node : String) : Packet → Job
  | .open n clukey => .open node clukey n
  | .data clukey msgData => .data node clukey msgData

/-- The coroutine of a job. -/
def code : Job → Cluster Unit
  | .send _ clukey msgData => send clukey msgData
  | .open _ clukey _ => socketOpen clukey
  | .data _ clukey msgData => socketData clukey msgData

/-- How many services there are, the calls of the coroutines, what is on the links, and the messages
passed to agents, with the agents, by sender and receiver. -/
structure Network where
  services : ℕ
  slots : Slots interface
  link : String × String → List Packet
  passed : String × String → List (ℕ × Lua.Value)

namespace Network

/-- Puts a packet on a link. -/
def transmit (w : Network) (c : String × String) (x : Packet) : Network :=
  { w with link := Function.update w.link c (w.link c ++ [x]) }

/-- Records that a message has been passed to an agent. -/
def pass (w : Network) (c : String × String) (a : ℕ) (m : Lua.Value) : Network :=
  { w with passed := Function.update w.passed c (w.passed c ++ [(a, m)]) }

/-- Records that a coroutine has called. -/
def ask (w : Network) (n : ℕ) (q : Query) : Network :=
  { w with slots := w.slots.ask n q }

/-- Answers the call of a coroutine. -/
def answer (w : Network) (n : ℕ) (r : Except String Answer) : Network :=
  { w with slots := w.slots.answer n r }

end Network

/-- A call starts.  The call of another node goes over the link. -/
def issue (n : ℕ) (j : Job) (q : Query) (w : Network) : Network :=
  match q with
  | .open asrc clukey => (w.transmit (j.node, asrc.node) (.open n clukey)).ask n q
  | _ => w.ask n q

/-- A message is sent. -/
def transfer (j : Job) (o : Message) (w : Network) : Network :=
  match o with
  | .data asrc clukey msgData => w.transmit (j.node, asrc.node) (.data clukey msgData)
  | .recvcluster a msgData => w.pass j.route a msgData

/-- A coroutine has ended.  The end of `SOCKET.open` answers the call. -/
def finish (j : Job) (x : Ending interface Unit) (w : Network) : Network :=
  match j with
  | .open node clukey n =>
      if w.slots.asked n = some (.open ⟨node⟩ clukey) then
        match x with
        | .returned _ => w.answer n (.ok .done)
        | .raised e => w.answer n (.error e)
      else w
  | _ => w

/-- What happens around the services: a node is asked to send a message, a call is served, or a packet
arrives. -/
inductive Event where
  | send (node clukey : String) (msgData : Lua.Value)
  | serve (n : ℕ)
  | deliver (c : String × String)

/-- A step of the network. -/
def react (e : Event) (w : Network) : Option (Network × Option Job) :=
  match e with
  | .send node clukey msgData => some (w, some (.send node clukey msgData))
  | .serve n =>
      (w.slots.asked n).bind fun
        | .query node _ => some (w.answer n (.ok (.address node)), none)
        | .proxy node _ => some (w.answer n (.ok (.proxy ⟨node⟩)), none)
        | .newservice =>
            some ({ w.answer n (.ok (.handle w.services)) with services := w.services + 1 }, none)
        | .startcluster _ _ => some (w.answer n (.ok .done), none)
        | .open _ _ => none
  | .deliver c =>
      match w.link c with
      | [] => none
      | x :: rest => some ({ w with link := Function.update w.link c rest }, some (x.job c.2))

/-- The cluster services of all nodes and the network between them. -/
def system : System interface String Network Job Event Unit where
  home := Job.node
  code := code
  issue := issue
  send := transfer
  finish := finish
  react := react
  collect n w := (w.slots.collect n).map fun (r, slots) => (r, { w with slots := slots })

/-- A state of the system. -/
abbrev State : Type := System.State interface String Network Job Unit

/-- No node has connected to another yet. -/
structure Started (s : State) : Prop where
  selfclukey : ∀ a, (s.process a).selfclukey = a
  clustertab : ∀ a b, (s.process a).clustertab b = none
  agenttab : ∀ a b, a ≠ b → (s.process a).agenttab b = none
  slots : ∀ n, s.network.slots n = none
  link : ∀ c, s.network.link c = []
  passed : ∀ a b, a ≠ b → s.network.passed (a, b) = []
  started : s.started = []
  waiting : ∀ n, s.waiting n = none

end Cluster
