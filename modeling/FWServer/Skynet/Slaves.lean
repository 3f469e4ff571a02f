import FWServer.Kernel.Machine
import Mathlib.Data.List.AList
import Mathlib.Data.Nat.Notation
import Mathlib.Logic.Function.Basic

/-!
# The master and the slaves

`service/cmaster.lua` and `service/cslave.lua`: every process of a network runs a slave, and one of them a master.
A slave holds a connection to the master, on which it reports itself, the names registered in its process and the
names it asks for; the master tells the slaves of each other and of the names.  A slave connects to the slaves that
report after it, and waits, before it is ready, for those that have reported before it.

A process stands for its address too.  A connection carries packages in order, both ways, until the process of the
slave dies; then what the master has not read of it may be lost.  A connection between two slaves stands for the
sockets at both its ends, and the first byte sent on it, by the harbor service, is the id of the harbor that has
opened it.  Ids are taken to fit into that byte, as those of a configuration do; the model does not cut them to it.
The loops of `ready` go over the slaves and the names in the order in which these have come, which is one of those
that `pairs` may take.  An address that is too long to be packed keeps its slave from reporting at all; names that are
too long are kept by the assertion in `pack_package` from being sent.

Left out are the death of the master, the requests of `LINKMASTER`, which wait for it, and the names that start
with a dot, which the slave asks its own process for.
-/

namespace Skynet

namespace Slaves

variable {ι ν α : Type}

/-- What a slave sends to the master. -/
inductive Report (ι ν α : Type) where
  | H (slave_id : ℕ) (slave_addr : ι)
  | R (name : ν) (address : α)
  | Q (name : ν)

/-- What the master sends to a slave. -/
inductive Notice (ι ν α : Type) where
  | W (n : ℕ)
  | C (slave_id : ℕ) (slave_addr : ι)
  | N (name : ν) (address : α)
  | D (slave_id : ℕ)

/-- The lengths of what `skynet.packstring` makes of a name and an address, and of a name. -/
structure Packing (ν α : Type) where
  name : ν → α → ℕ
  query : ν → ℕ

/-- The assertion of `pack_package` for `"R"` and `"N"`. -/
def Packing.fits (pack : Packing ν α) (name : ν) (address : α) : Prop :=
  pack.name name address ≤ 255

instance (pack : Packing ν α) (name : ν) (address : α) : Decidable (pack.fits name address) :=
  inferInstanceAs (Decidable (_ ≤ _))

/-! ### The slave -/

/-- The commands for the harbor service: a connection opened, a connection accepted, a name. -/
inductive Command (ι ν α : Type) where
  | S (fd : ι) (id : ℕ)
  | A (fd : ι) (id : ℕ)
  | N (name : ν) (address : α)
  deriving DecidableEq

/-- How far the slave has come: `skynet.wait` with the number of harbors awaited, `socket.close(slave_fd)` after
it, and the time after `ready` has been forked. -/
inductive Phase where
  | off
  | greeting
  | waiting (n : ℕ)
  | closing
  | ready
  | down
  deriving DecidableEq

/-- The process runs. -/
def Phase.Live : Phase → Prop
  | .off => False
  | .down => False
  | _ => True

instance (x : Phase) : Decidable x.Live := by
  cases x <;> unfold Phase.Live <;> infer_instance

/-- The socket `slave_fd` is open. -/
def Phase.listens : Phase → Bool
  | .greeting => true
  | .waiting _ => true
  | _ => false

/-- A response that waits in `monitor`. -/
inductive Wait where
  | LINK (response : ℕ)
  | CONNECT (response : ℕ)

def Wait.response : Wait → ℕ
  | .LINK r => r
  | .CONNECT r => r

/-- A slave: in `slaves` an id that is missing is `nil` and `none` is `false`; `opening` is the connection that
`monitor_master` waits for, `linking` the one that `ready` waits for, and `rest` what `ready` goes on with. -/
structure Slave (ι ν α : Type) where
  phase : Phase
  slaves : AList fun _ : ℕ => Option ι
  connect_queue : Option (AList fun _ : ℕ => ι)
  opening : Option (ℕ × ι)
  linking : Option (ℕ × ι)
  rest : List (ℕ × ι)
  globalname : AList fun _ : ν => α
  queryname : ν → List ℕ
  monitor : ℕ → List Wait
  told : List (Command ι ν α)
  answers : List (ℕ × Option α)

namespace Slave

/-- The slave before it runs. -/
def off (ι ν α : Type) : Slave ι ν α :=
  ⟨.off, ∅, some ∅, none, none, [], ∅, fun _ => [], fun _ => [], [], []⟩

/-- `slaves[id]`, when it is a socket. -/
def connection (s : Slave ι ν α) (id : ℕ) : Option ι :=
  (s.slaves.lookup id).join

/-- A command for the harbor service. -/
def tell (s : Slave ι ν α) (c : Command ι ν α) : Slave ι ν α :=
  { s with told := s.told ++ [c] }

/-- `monitor_clear` -/
def monitor_clear (s : Slave ι ν α) (id : ℕ) : Slave ι ν α :=
  { s with
    monitor := Function.update s.monitor id []
    answers := s.answers ++ (s.monitor id).map fun w => (w.response, none) }

/-- `connect_slave` after `socket.open`, which has given a socket or not. -/
def connected (s : Slave ι ν α) (id : ℕ) (address : ι) (fd : Bool) : Slave ι ν α :=
  if fd then
    ({ s with slaves := s.slaves.insert id (some address) }.monitor_clear id).tell (.S address id)
  else s

/-- The loops of `ready`, in the order of the lists: the next connection to be opened, or else the names are told. -/
def ready (s : Slave ι ν α) : List (ℕ × ι) → Slave ι ν α
  | [] =>
      { s with
        linking := none
        rest := []
        told := s.told ++ s.globalname.entries.map fun e => .N e.1 e.2 }
  | (id, address) :: rest =>
      if s.slaves.lookup id = none then { s with linking := some (id, address), rest := rest }
      else s.ready rest

variable [DecidableEq ν]

/-- `response_name` -/
def response_name (s : Slave ι ν α) (name : ν) : Slave ι ν α :=
  { s with
    queryname := Function.update s.queryname name []
    answers := s.answers ++ (s.queryname name).map fun r => (r, s.globalname.lookup name) }

/-- The name is told to the harbor service, once it is known. -/
def tellName (s : Slave ι ν α) (name : ν) (address : α) : Slave ι ν α :=
  s.tell (.N name address)

/-- The package from the master that is read first. -/
def greeted (s : Slave ι ν α) : Notice ι ν α → Slave ι ν α
  | .W n => { s with phase := if 0 < n then .waiting n else .closing }
  | _ => { s with phase := .down }

/-- `monitor_master` after a package has been read. -/
def monitor_master (s : Slave ι ν α) : Notice ι ν α → Slave ι ν α
  | .C id address =>
      match s.connect_queue with
      | some queue => { s with connect_queue := some (queue.insert id address) }
      | none => if s.slaves.lookup id = none then { s with opening := some (id, address) } else s
  | .N name address =>
      let s' := { s with globalname := s.globalname.insert name address }.response_name name
      if s.connect_queue.isNone then s'.tellName name address else s'
  | .D id =>
      let s' := { s with slaves := s.slaves.insert id none }
      if (s.connection id).isSome then s'.monitor_clear id else s'
  | .W _ => s

/-- A package from the master is read. -/
def notice (s : Slave ι ν α) (m : Notice ι ν α) : Slave ι ν α :=
  if s.phase = .greeting then s.greeted m else s.monitor_master m

/-- `accept_slave`, with the first byte read of the connection, if any. -/
def accept_slave (s : Slave ι ν α) (fd : ι) (byte : Option ℕ) : Slave ι ν α :=
  match byte with
  | none => s
  | some id =>
      if s.slaves.lookup id = none then
        ({ s with slaves := s.slaves.insert id (some fd) }.monitor_clear id).tell (.A fd id)
      else s

/-- The function that `socket.start` is given: the slave that waits goes on once enough harbors are known. -/
def accepted (s : Slave ι ν α) (fd : ι) (byte : Option ℕ) : Slave ι ν α :=
  let s' := s.accept_slave fd byte
  match s.phase with
  | .waiting n => if n ≤ s'.slaves.keys.length then { s' with phase := .closing } else s'
  | _ => s'

/-- `slave_fd` is closed, and `ready` is forked and runs. -/
def shakehandReady (s : Slave ι ν α) : Slave ι ν α :=
  { s with phase := .ready, connect_queue := none }.ready
    (match s.connect_queue with
      | some queue => queue.entries.map fun e : (_ : ℕ) × ι => (e.1, e.2)
      | none => [])

/-- `harbor.LINK` -/
def LINK (s : Slave ι ν α) (id : ℕ) (r : ℕ) : Slave ι ν α :=
  if (s.connection id).isSome then
    { s with monitor := Function.update s.monitor id (s.monitor id ++ [.LINK r]) }
  else { s with answers := s.answers ++ [(r, none)] }

/-- `harbor.CONNECT` -/
def CONNECT (s : Slave ι ν α) (id : ℕ) (r : ℕ) : Slave ι ν α :=
  if (s.connection id).isNone then
    { s with monitor := Function.update s.monitor id (s.monitor id ++ [.CONNECT r]) }
  else { s with answers := s.answers ++ [(r, none)] }

/-- The command `D` of the harbor service. -/
def harborDown (s : Slave ι ν α) (id : ℕ) : Slave ι ν α :=
  let s' := if (s.connection id).isSome then s.monitor_clear id else s
  { s' with slaves := s'.slaves.insert id none }

end Slave

/-! ### The master and the network -/

/-- An entry of `slave_node`; the `fd` of a slave that is down is `0`. -/
structure Node (ι : Type) where
  id : ℕ
  fd : Option ι
  addr : ι

/-- What the master does with a connection: it reads the handshake, or runs `monitor_slave` for an id, or has closed
it. -/
inductive Conn where
  | none
  | handshake
  | monitor (slave_id : ℕ)
  | closed
  deriving DecidableEq

/-- The master, the slaves, the packages on their way and the connections that have not been accepted. -/
structure State (ι ν α : Type) where
  slave_node : List (Node ι)
  global_name : ν → Option α
  conn : ι → Conn
  slave : ι → Slave ι ν α
  up : ι → List (Report ι ν α)
  down : ι → List (Notice ι ν α)
  incoming : ι → List ι

namespace State

/-- No process has started. -/
def start (ι ν α : Type) : State ι ν α :=
  ⟨[], fun _ => none, fun _ => .none, fun _ => .off ι ν α, fun _ => [], fun _ => [], fun _ => []⟩

/-- The sockets of the slaves that are not down. -/
def fds (s : State ι ν α) : List ι :=
  s.slave_node.filterMap Node.fd

variable [DecidableEq ι]

/-- A package is written on some connections. -/
def write (s : State ι ν α) (fds : List ι) (m : Notice ι ν α) : State ι ν α :=
  { s with down := fds.foldl (fun down fd => Function.update down fd (down fd ++ [m])) s.down }

/-- A slave goes over to another state. -/
def setSlave (s : State ι ν α) (p : ι) (x : Slave ι ν α) : State ι ν α :=
  { s with slave := Function.update s.slave p x }

/-- A slave sends a package. -/
def send (s : State ι ν α) (p : ι) (m : Report ι ν α) : State ι ν α :=
  { s with up := Function.update s.up p (s.up p ++ [m]) }

/-- `handshake` after its package has been read. -/
def handshake (s : State ι ν α) (fd : ι) : Report ι ν α → State ι ν α
  | .H slave_id slave_addr =>
      if slave_id = 0 ∨ s.slave_node.any (·.id = slave_id) then
        { s with conn := Function.update s.conn fd .closed }
      else
        let s' := (s.write s.fds (.C slave_id slave_addr)).write [fd] (.W s.fds.length)
        { s' with
          slave_node := s.slave_node ++ [⟨slave_id, some fd, slave_addr⟩]
          conn := Function.update s.conn fd (.monitor slave_id) }
  | _ => { s with conn := Function.update s.conn fd .closed }

/-- The end of `monitor_slave`. -/
def slaveDown (s : State ι ν α) (fd : ι) (slave_id : ℕ) : State ι ν α :=
  let s' := { s with
    slave_node := s.slave_node.map fun v : Node ι => if v.id = slave_id then { v with fd := none } else v
    conn := Function.update s.conn fd .closed }
  s'.write s'.fds (.D slave_id)

variable [DecidableEq ν] (pack : Packing ν α)

/-- `dispatch_slave` after its package has been read, and the end of `monitor_slave` if it raises. -/
def dispatch_slave (s : State ι ν α) (fd : ι) (slave_id : ℕ) : Report ι ν α → State ι ν α
  | .R name address =>
      let s' := { s with
        global_name := Function.update s.global_name name (some ((s.global_name name).getD address)) }
      if pack.fits name address then s'.write s.fds (.N name address) else s'.slaveDown fd slave_id
  | .Q name =>
      match s.global_name name with
      | none => s
      | some address =>
          if pack.fits name address then s.write [fd] (.N name address) else s.slaveDown fd slave_id
  | .H _ _ => s

end State

/-- What happens next. -/
inductive Step (ι ν α : Type) where
  /-- A process starts, and its slave reports itself. -/
  | join (p : ι)
  /-- The master reads a package. -/
  | receive (p : ι)
  /-- The master finds the connection closed. -/
  | lose (p : ι)
  /-- The slave reads a package. -/
  | notice (p : ι)
  /-- The slave, which has not been greeted, finds its connection closed. -/
  | refused (p : ι)
  /-- `socket.open` returns to `monitor_master`. -/
  | opened (p : ι)
  /-- `socket.open` returns to `ready`. -/
  | linked (p : ι)
  /-- The first byte of a connection from `q` is read by `p`, or the connection is found closed. -/
  | accept (p q : ι) (byte : Bool)
  /-- `socket.close(slave_fd)` returns. -/
  | shakehand (p : ι)
  /-- `harbor.REGISTER` -/
  | REGISTER (p : ι) (name : ν) (handle : α)
  /-- `harbor.QUERYNAME` -/
  | QUERYNAME (p : ι) (name : ν) (response : ℕ)
  /-- The command `Q` of the harbor service. -/
  | ask (p : ι) (name : ν)
  | LINK (p : ι) (id : ℕ) (response : ℕ)
  | CONNECT (p : ι) (id : ℕ) (response : ℕ)
  /-- The harbor service has lost a connection. -/
  | harborDown (p : ι) (id : ℕ)
  /-- The process dies. -/
  | crash (p : ι)

section Network

variable [DecidableEq ι] [DecidableEq ν] (pack : Packing ν α) (harbor : ι → ℕ)

namespace State

/-- The master reads the next package of a connection. -/
def receive (s : State ι ν α) (p : ι) : Option (State ι ν α) :=
  match s.conn p, s.up p with
  | .handshake, m :: rest => some ({ s with up := Function.update s.up p rest }.handshake p m)
  | .monitor id, m :: rest => some ({ s with up := Function.update s.up p rest }.dispatch_slave pack p id m)
  | _, _ => none

/-- The master finds a connection closed: what has not been read of it is lost. -/
def lose (s : State ι ν α) (p : ι) : Option (State ι ν α) :=
  if (s.slave p).phase = .down then
    match s.conn p with
    | .handshake => some { s with up := Function.update s.up p [], conn := Function.update s.conn p .closed }
    | .monitor id => some ({ s with up := Function.update s.up p [] }.slaveDown p id)
    | _ => none
  else none

/-- `socket.open` returns: there is a socket when the other process listens. -/
def openTo (s : State ι ν α) (p q : ι) : State ι ν α :=
  if (s.slave q).phase.listens then
    { s with incoming := Function.update s.incoming q (s.incoming q ++ [p]) }
  else s

/-- `harbor.REGISTER`: the name is told to the harbor service when it has been sent to the master. -/
def REGISTER (s : State ι ν α) (p : ι) (name : ν) (handle : α) : State ι ν α :=
  let x := { s.slave p with globalname := (s.slave p).globalname.insert name handle }.response_name name
  if pack.fits name handle then (s.setSlave p (x.tellName name handle)).send p (.R name handle)
  else s.setSlave p x

/-- `harbor.QUERYNAME` -/
def QUERYNAME (s : State ι ν α) (p : ι) (name : ν) (r : ℕ) : State ι ν α :=
  match (s.slave p).globalname.lookup name with
  | some address => s.setSlave p { s.slave p with answers := (s.slave p).answers ++ [(r, some address)] }
  | none =>
      let x := { s.slave p with
        queryname := Function.update (s.slave p).queryname name ((s.slave p).queryname name ++ [r]) }
      if (s.slave p).queryname name = [] then
        if pack.query name ≤ 255 then (s.setSlave p x).send p (.Q name) else s
      else s.setSlave p x

/-- The command `Q` of the harbor service. -/
def ask (s : State ι ν α) (p : ι) (name : ν) : State ι ν α :=
  match (s.slave p).globalname.lookup name with
  | some address => s.setSlave p ((s.slave p).tellName name address)
  | none => if pack.query name ≤ 255 then s.send p (.Q name) else s

end State

/-- One step of the network. -/
def step (s : State ι ν α) : Step ι ν α → Option (State ι ν α)
  | .join p =>
      if (s.slave p).phase = .off then
        some { s with
          conn := Function.update s.conn p .handshake
          slave := Function.update s.slave p { s.slave p with phase := .greeting }
          up := Function.update s.up p [.H (harbor p) p] }
      else none
  | .receive p => s.receive pack p
  | .lose p => s.lose p
  | .notice p =>
      match s.down p with
      | m :: rest =>
          if (s.slave p).phase.Live ∧ (s.slave p).opening = none then
            some ({ s with down := Function.update s.down p rest }.setSlave p ((s.slave p).notice m))
          else none
      | [] => none
  | .refused p =>
      if (s.slave p).phase = .greeting ∧ s.conn p = .closed then
        some (s.setSlave p { s.slave p with phase := .down })
      else none
  | .opened p =>
      match (s.slave p).opening with
      | some (id, q) =>
          if (s.slave p).phase.Live then
            some ((s.openTo p q).setSlave p
              ({ s.slave p with opening := none }.connected id q (s.slave q).phase.listens))
          else none
      | none => none
  | .linked p =>
      match (s.slave p).linking with
      | some (id, q) =>
          if (s.slave p).phase.Live then
            some ((s.openTo p q).setSlave p
              (((s.slave p).connected id q (s.slave q).phase.listens).ready (s.slave p).rest))
          else none
      | none => none
  | .accept p q byte =>
      if q ∈ s.incoming p ∧ (s.slave p).phase.Live ∧ (s.slave p).phase ≠ .greeting ∧
          (byte = true ∨ (s.slave q).phase = .down ∨ (s.slave p).phase.listens = false) then
        some ({ s with incoming := Function.update s.incoming p ((s.incoming p).erase q) }.setSlave p
          ((s.slave p).accepted q (if byte then some (harbor q) else none)))
      else none
  | .shakehand p =>
      if (s.slave p).phase = .closing then some (s.setSlave p (s.slave p).shakehandReady) else none
  | .REGISTER p name handle =>
      if (s.slave p).phase = .ready ∧ (s.slave p).globalname.lookup name = none then
        some (s.REGISTER pack p name handle)
      else none
  | .QUERYNAME p name r => if (s.slave p).phase = .ready then some (s.QUERYNAME pack p name r) else none
  | .ask p name => if (s.slave p).phase.Live then some (s.ask pack p name) else none
  | .LINK p id r =>
      if (s.slave p).phase = .ready then some (s.setSlave p ((s.slave p).LINK id r)) else none
  | .CONNECT p id r =>
      if (s.slave p).phase = .ready then some (s.setSlave p ((s.slave p).CONNECT id r)) else none
  | .harborDown p id =>
      if (s.slave p).phase.Live ∧ (s.slave p).phase ≠ .greeting then
        some (s.setSlave p ((s.slave p).harborDown id))
      else none
  | .crash p =>
      if (s.slave p).phase.Live then some (s.setSlave p { s.slave p with phase := .down }) else none

/-- What each step does, and when it can be taken. -/
inductive Moves (s : State ι ν α) : Step ι ν α → State ι ν α → Prop
  | join {p : ι} (hoff : (s.slave p).phase = .off) :
      Moves s (.join p) { s with
        conn := Function.update s.conn p .handshake
        slave := Function.update s.slave p { s.slave p with phase := .greeting }
        up := Function.update s.up p [.H (harbor p) p] }
  | handshake {p : ι} {m : Report ι ν α} {rest : List (Report ι ν α)} (hconn : s.conn p = .handshake)
      (hup : s.up p = m :: rest) :
      Moves s (.receive p) ({ s with up := Function.update s.up p rest }.handshake p m)
  | dispatch {p : ι} {id : ℕ} {m : Report ι ν α} {rest : List (Report ι ν α)} (hconn : s.conn p = .monitor id)
      (hup : s.up p = m :: rest) :
      Moves s (.receive p) ({ s with up := Function.update s.up p rest }.dispatch_slave pack p id m)
  | loseHandshake {p : ι} (hdown : (s.slave p).phase = .down) (hconn : s.conn p = .handshake) :
      Moves s (.lose p) { s with up := Function.update s.up p [], conn := Function.update s.conn p .closed }
  | lose {p : ι} {id : ℕ} (hdown : (s.slave p).phase = .down) (hconn : s.conn p = .monitor id) :
      Moves s (.lose p) ({ s with up := Function.update s.up p [] }.slaveDown p id)
  | notice {p : ι} {m : Notice ι ν α} {rest : List (Notice ι ν α)} (hdown : s.down p = m :: rest)
      (hlive : (s.slave p).phase.Live) (hopening : (s.slave p).opening = none) :
      Moves s (.notice p)
        ({ s with down := Function.update s.down p rest }.setSlave p ((s.slave p).notice m))
  | refused {p : ι} (hphase : (s.slave p).phase = .greeting) (hconn : s.conn p = .closed) :
      Moves s (.refused p) (s.setSlave p { s.slave p with phase := .down })
  | opened {p q : ι} {id : ℕ} (hopening : (s.slave p).opening = some (id, q)) (hlive : (s.slave p).phase.Live) :
      Moves s (.opened p) ((s.openTo p q).setSlave p
        ({ s.slave p with opening := none }.connected id q (s.slave q).phase.listens))
  | linked {p q : ι} {id : ℕ} (hlinking : (s.slave p).linking = some (id, q)) (hlive : (s.slave p).phase.Live) :
      Moves s (.linked p) ((s.openTo p q).setSlave p
        (((s.slave p).connected id q (s.slave q).phase.listens).ready (s.slave p).rest))
  | accept {p q : ι} {byte : Bool} (hmem : q ∈ s.incoming p) (hlive : (s.slave p).phase.Live)
      (hgreeted : (s.slave p).phase ≠ .greeting)
      (hbyte : byte = true ∨ (s.slave q).phase = .down ∨ (s.slave p).phase.listens = false) :
      Moves s (.accept p q byte)
        ({ s with incoming := Function.update s.incoming p ((s.incoming p).erase q) }.setSlave p
          ((s.slave p).accepted q (if byte then some (harbor q) else none)))
  | shakehand {p : ι} (hclosing : (s.slave p).phase = .closing) :
      Moves s (.shakehand p) (s.setSlave p (s.slave p).shakehandReady)
  | REGISTER {p : ι} {name : ν} {handle : α} (hready : (s.slave p).phase = .ready)
      (hnone : (s.slave p).globalname.lookup name = none) :
      Moves s (.REGISTER p name handle) (s.REGISTER pack p name handle)
  | QUERYNAME {p : ι} {name : ν} {r : ℕ} (hready : (s.slave p).phase = .ready) :
      Moves s (.QUERYNAME p name r) (s.QUERYNAME pack p name r)
  | ask {p : ι} {name : ν} (hlive : (s.slave p).phase.Live) : Moves s (.ask p name) (s.ask pack p name)
  | LINK {p : ι} {id r : ℕ} (hready : (s.slave p).phase = .ready) :
      Moves s (.LINK p id r) (s.setSlave p ((s.slave p).LINK id r))
  | CONNECT {p : ι} {id r : ℕ} (hready : (s.slave p).phase = .ready) :
      Moves s (.CONNECT p id r) (s.setSlave p ((s.slave p).CONNECT id r))
  | harborDown {p : ι} {id : ℕ} (hlive : (s.slave p).phase.Live) (hgreeted : (s.slave p).phase ≠ .greeting) :
      Moves s (.harborDown p id) (s.setSlave p ((s.slave p).harborDown id))
  | crash {p : ι} (hlive : (s.slave p).phase.Live) :
      Moves s (.crash p) (s.setSlave p { s.slave p with phase := .down })

theorem moves_of_step {s t : State ι ν α} {l : Step ι ν α} (h : step pack harbor s l = some t) :
  Moves pack harbor s l t
  := by
  cases l <;> simp only [step] at h
  case join p =>
    obtain ⟨hoff, heq⟩ := Option.ite_none_right_eq_some.mp h
    exact Option.some.inj heq ▸ .join hoff
  case receive p =>
    unfold State.receive at h
    split at h
    · next hconn hup => exact Option.some.inj h ▸ .handshake hconn hup
    · next hconn hup => exact Option.some.inj h ▸ .dispatch hconn hup
    · cases h
  case lose p =>
    unfold State.lose at h
    obtain ⟨hdown, h⟩ := Option.ite_none_right_eq_some.mp h
    split at h
    · next hconn => exact Option.some.inj h ▸ .loseHandshake hdown hconn
    · next hconn => exact Option.some.inj h ▸ .lose hdown hconn
    · cases h
  case notice p =>
    split at h
    · next hdown =>
        obtain ⟨⟨hlive, hopening⟩, heq⟩ := Option.ite_none_right_eq_some.mp h
        exact Option.some.inj heq ▸ .notice hdown hlive hopening
    · cases h
  case refused p =>
    obtain ⟨⟨hphase, hconn⟩, heq⟩ := Option.ite_none_right_eq_some.mp h
    exact Option.some.inj heq ▸ .refused hphase hconn
  case opened p =>
    split at h
    · next hopening =>
        obtain ⟨hlive, heq⟩ := Option.ite_none_right_eq_some.mp h
        exact Option.some.inj heq ▸ .opened hopening hlive
    · cases h
  case linked p =>
    split at h
    · next hlinking =>
        obtain ⟨hlive, heq⟩ := Option.ite_none_right_eq_some.mp h
        exact Option.some.inj heq ▸ .linked hlinking hlive
    · cases h
  case accept p q byte =>
    obtain ⟨⟨hmem, hlive, hgreeted, hbyte⟩, heq⟩ := Option.ite_none_right_eq_some.mp h
    exact Option.some.inj heq ▸ .accept hmem hlive hgreeted hbyte
  case shakehand p =>
    obtain ⟨hclosing, heq⟩ := Option.ite_none_right_eq_some.mp h
    exact Option.some.inj heq ▸ .shakehand hclosing
  case REGISTER p name handle =>
    obtain ⟨⟨hready, hnone⟩, heq⟩ := Option.ite_none_right_eq_some.mp h
    exact Option.some.inj heq ▸ .REGISTER hready hnone
  case QUERYNAME p name r =>
    obtain ⟨hready, heq⟩ := Option.ite_none_right_eq_some.mp h
    exact Option.some.inj heq ▸ .QUERYNAME hready
  case ask p name =>
    obtain ⟨hlive, heq⟩ := Option.ite_none_right_eq_some.mp h
    exact Option.some.inj heq ▸ .ask hlive
  case LINK p id r =>
    obtain ⟨hready, heq⟩ := Option.ite_none_right_eq_some.mp h
    exact Option.some.inj heq ▸ .LINK hready
  case CONNECT p id r =>
    obtain ⟨hready, heq⟩ := Option.ite_none_right_eq_some.mp h
    exact Option.some.inj heq ▸ .CONNECT hready
  case harborDown p id =>
    obtain ⟨⟨hlive, hgreeted⟩, heq⟩ := Option.ite_none_right_eq_some.mp h
    exact Option.some.inj heq ▸ .harborDown hlive hgreeted
  case crash p =>
    obtain ⟨hlive, heq⟩ := Option.ite_none_right_eq_some.mp h
    exact Option.some.inj heq ▸ .crash hlive

/-- The network, from its start. -/
def network : Machine (State ι ν α) (Step ι ν α) where
  init s := s = .start ι ν α
  step := step pack harbor

end Network

end Slaves

end Skynet
