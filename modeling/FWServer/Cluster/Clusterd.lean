import FWServer.Cluster.FrameRoundTrip
import FWServer.Kernel.Machine
import Mathlib.Logic.Function.Basic

/-!
# The daemon of the cluster

`service/clusterd.lua`: the daemon of a node packs the requests to another node, numbering them, and sends them
over one connection.  The daemon of the other node puts the parts of large requests together in one table,
`large_request`, for all its connections; it passes what is complete on, and answers on the connection.

A connection delivers the frames of a request in their order; those of several requests in any order.  The gate
takes the header of a frame away.  The table of names is given by the packed address that a packed name is
answered with.  Only `cluster.query` sends to the address 0, and what it sends is a name that `skynet.pack` has
packed; of other bytes, for which `skynet.unpack` may raise an error, the model says that the name is not found.
-/

namespace Cluster.Clusterd

open Cluster.Core (Address Data packrequest packresponse unpackrequest concat)

/-! ### The side that is connected to -/

/-- An element of `large_request`: what is kept of the first frame, and the table of what has come. -/
structure Large where
  addr : Option Address
  is_push : Bool
  msgs : List Data

/-- What is done with a request that is complete, or cannot be put together. -/
inductive Action where
  | invalid
  | lookup (name : List UInt8)
  | rawsend (addr : Option Address) (msg : List UInt8)
  | rawcall (addr : Option Address) (msg : List UInt8)
  deriving DecidableEq

/-- A coroutine that handles a request, from where it is complete. -/
structure Handled where
  fd : ℕ
  session : ℕ
  action : Action

/-- What the `n`-th of these coroutines has written to a socket, and the response that it has packed. -/
structure Answer where
  n : ℕ
  fd : ℕ
  ok : Bool
  msg : List UInt8
  frames : List (List UInt8)

/-- The daemon, with its coroutines: those that wait for a reply, and what they have written. -/
structure Process where
  large_request : ℕ → Option Large
  register_name : List UInt8 → Option (List UInt8)
  handled : List Handled
  waiting : List ℕ
  answers : List Answer

/-- The bytes of a text. -/
def text (s : String) : List UInt8 :=
  s.toUTF8.data.toList

/-- A message that is a string. -/
def string : Data → Option (List UInt8)
  | .bytes s => some s
  | .size _ => none

/-- The end of `command.socket`, by the address; without a message nothing is passed on. -/
def action (addr : Option Address) (is_push : Bool) : Option (List UInt8) → Action
  | none => .invalid
  | some msg =>
      if addr = some (.number 0) then .lookup msg
      else if is_push then .rawsend addr msg
      else .rawcall addr msg

/-- A coroutine packs a response and writes it. -/
def Process.respond (p : Process) (n : ℕ) (ok : Bool) (msg : List UInt8) : Process :=
  match p.handled[n]? with
  | none => p
  | some h =>
      match packresponse h.session ok msg with
      | .error _ => p
      | .ok response => { p with answers := p.answers ++ [⟨n, h.fd, ok, msg, response.frames⟩] }

/-- A coroutine goes on with a request, up to its end or the call. -/
def Process.handle (p : Process) (fd session : ℕ) (action : Action) : Process :=
  let n := p.handled.length
  let p := { p with handled := p.handled ++ [⟨fd, session, action⟩] }
  match action with
  | .invalid => p.respond n false (text "Invalid large req")
  | .lookup name =>
      match p.register_name name with
      | some addr => p.respond n true addr
      | none => p.respond n false (text "name not found")
  | .rawsend _ _ => p
  | .rawcall _ _ => { p with waiting := p.waiting ++ [n] }

/-- `command.socket` of `data`; what cannot be unpacked raises. -/
def data (p : Process) (fd : ℕ) (msg : List UInt8) : Process :=
  match unpackrequest msg with
  | .error _ => p
  | .ok r =>
      if r.padding then
        let req := (p.large_request r.session).getD ⟨r.addr, r.is_push, []⟩
        { p with
          large_request := Function.update p.large_request r.session
            (some { req with msgs := req.msgs ++ [r.msg] }) }
      else
        match p.large_request r.session with
        | none => p.handle fd r.session (action r.addr r.is_push (string r.msg))
        | some req =>
            let p := { p with large_request := Function.update p.large_request r.session none }
            p.handle fd r.session (action req.addr req.is_push (concat (req.msgs ++ [r.msg])))

/-- `command.socket` of `close`, `error` and `warning`. -/
def closed (p : Process) : Process :=
  { p with large_request := fun _ => none }

/-! ### The daemons and their connections -/

/-- A request that has been packed for a connection. -/
structure Sent where
  fd : ℕ
  addr : Address
  session : ℤ
  msg : List UInt8
  is_push : Bool

/-- A request whose frames are on their way: those that have arrived, and the rest, without headers. -/
structure Sending extends Sent where
  arrived : List (List UInt8)
  rest : List (List UInt8)

/-- The daemon, the numbers of the peers, the peer of each connection, and the requests on their way.
`completed` are the requests whose last frame has arrived, in this order. -/
structure State where
  process : Process
  node_session : ℕ → ℤ
  connection : ℕ → Option ℕ
  next : ℕ
  sending : ℕ → Option Sending
  completed : List Sent

/-- What happens: a peer connects, or packs a request; the next frame of a request arrives; a connection is
closed, by an error or without, or warned of; a name is registered; a coroutine gets its reply. -/
inductive Event where
  | open (fd peer : ℕ)
  | request (fd : ℕ) (addr : Address) (msg : List UInt8) (is_push : Bool)
  | deliver (n : ℕ)
  | close (fd : ℕ)
  | warning (fd : ℕ)
  | register (register_name : List UInt8 → Option (List UInt8))
  | reply (n : ℕ) (ok : Bool) (msg : List UInt8)

/-- `send_request` and `command.push` of the peer; what cannot be packed raises. -/
def request (st : State) (fd peer : ℕ) (addr : Address) (msg : List UInt8) (is_push : Bool) : State :=
  let session := st.node_session peer
  match packrequest addr session (some msg) is_push with
  | .error _ => st
  | .ok packed =>
      let new_session := if is_push ∧ packed.padding = none then session else packed.next_session
      { st with
        node_session := Function.update st.node_session peer new_session
        next := st.next + 1
        sending := Function.update st.sending st.next
          (some ⟨⟨fd, addr, session, msg, is_push⟩, [], packed.frames.map (List.drop 2)⟩) }

/-- The next frame of a request arrives. -/
def deliver (st : State) (n : ℕ) (x : Sending) (body : List UInt8) : List (List UInt8) → State
  | [] =>
      { st with
        process := data st.process x.fd body
        sending := Function.update st.sending n none
        completed := st.completed ++ [x.toSent] }
  | rest =>
      { st with
        process := data st.process x.fd body
        sending := Function.update st.sending n
          (some { x with arrived := x.arrived ++ [body], rest := rest }) }

/-- A step. -/
def step (st : State) : Event → Option State
  | .open fd peer =>
      if st.connection fd = none then
        some { st with connection := Function.update st.connection fd (some peer) }
      else none
  | .request fd addr msg is_push =>
      (st.connection fd).map fun peer => request st fd peer addr msg is_push
  | .deliver n =>
      match st.sending n with
      | none => none
      | some x =>
          match x.rest with
          | [] => none
          | body :: rest => some (deliver st n x body rest)
  | .close fd =>
      some { st with
        process := closed st.process
        connection := Function.update st.connection fd none
        sending := fun n => (st.sending n).filter fun x => x.fd ≠ fd }
  | .warning _ => some { st with process := closed st.process }
  | .register register_name => some { st with process.register_name := register_name }
  | .reply n ok msg =>
      if n ∈ st.process.waiting then
        let process := { st.process with waiting := st.process.waiting.erase n }
        some { st with process := process.respond n ok msg }
      else none

/-- No peer has connected, and all number from one. -/
structure Started (st : State) : Prop where
  large_request : ∀ session, st.process.large_request session = none
  register_name : ∀ name, st.process.register_name name = none
  handled : st.process.handled = []
  waiting : st.process.waiting = []
  answers : st.process.answers = []
  node_session : ∀ peer, st.node_session peer = 1
  connection : ∀ fd, st.connection fd = none
  sending : ∀ n, st.sending n = none
  completed : st.completed = []

/-- The daemon and its peers. -/
def machine : Machine State Event where
  init := Started
  step := step

end Cluster.Clusterd
