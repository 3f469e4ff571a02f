import FWServer.Kernel.Links
import FWServer.Kernel.Machine
import Mathlib.Data.Finset.Card

/-!
# Multicast

`service/multicastd.lua`: the service of a node that keeps the subscribers of channels.  A channel belongs to
the node that its low eight bits name; a node with subscribers of a channel of another one asks that node for
what is published.

What the services of several nodes do at once is a sequence of steps: requests of the services of a node, the
answers of the data center about the address of a node, and the arrival of messages.  Channels exist from the
beginning and are not deleted; what is published is left out.  `node_address` says of which nodes the address is
known.
-/

namespace Skynet

namespace Multicast

/-- What `SUBR` answers: nothing, `true`, or an error. -/
inductive Answer where
  | none
  | noChannel
  | error
  deriving DecidableEq

/-- A message between two nodes. -/
inductive Packet where
  | SUBR (session c : ℕ)
  | answer (session : ℕ) (result : Answer)
  | USUBR (c : ℕ)

/-- A request that waits for the address of a node. -/
inductive Wait where
  | SUB (source c : ℕ)
  | USUB (c : ℕ)

/-- The channel of the request. -/
def Wait.c : Wait → ℕ
  | .SUB _ c => c
  | .USUB c => c

/-- The tables of the service, and the requests that wait: `looking` for the address of a node, and `calling`
for the answer in a session, with the subscriber and the channel. -/
structure Node where
  channel : ℕ → Option (Finset ℕ)
  channel_n : ℕ → Option ℤ
  channel_remote : ℕ → Option (Finset ℕ)
  node_address : ℕ → Bool
  looking : List Wait
  calling : ℕ → Option (ℕ × ℕ)
  session : ℕ

namespace Node

/-- `channel[c] = group` and `channel_n[c] = n` -/
def setChannel (nd : Node) (c : ℕ) (group : Option (Finset ℕ)) (n : Option ℤ) : Node :=
  { nd with
    channel := Function.update nd.channel c group
    channel_n := Function.update nd.channel_n c n }

/-- `command.SUBR`, from the node `source` -/
def SUBR (self : ℕ) (nd : Node) (source c : ℕ) : Answer × Node :=
  if nd.channel c = none then (.noChannel, nd)
  else if source = self ∨ c % 256 ≠ self then (.error, nd)
  else
    let group := (nd.channel_remote c).getD ∅
    (.none, { nd with channel_remote := Function.update nd.channel_remote c (some (insert source group)) })

/-- The end of `command.SUB` -/
def join (nd : Node) (source c : ℕ) : Node :=
  match nd.channel c, nd.channel_n c with
  | some group, some n =>
      if source ∈ group then nd else nd.setChannel c (some (insert source group)) (some (n + 1))
  | _, _ => nd

/-- `skynet.call(node_address[node], "lua", "SUBR", c)` once the address is known -/
def call (nd : Node) (source c : ℕ) : List Packet × Node :=
  ([.SUBR nd.session c], { nd with
    calling := Function.update nd.calling nd.session (some (source, c))
    session := nd.session + 1 })

/-- `command.SUB` -/
def SUB (self : ℕ) (nd : Node) (source c : ℕ) : List Packet × Node :=
  let node := c % 256
  if node ≠ self ∧ nd.channel c = none then
    if nd.node_address node then nd.call source c
    else ([], { nd with looking := nd.looking ++ [.SUB source c] })
  else ([], nd.join source c)

/-- The answer to a call of `command.SUB` -/
def answered (nd : Node) (session : ℕ) (result : Answer) : Node :=
  match nd.calling session with
  | none => nd
  | some (source, c) =>
      let nd := { nd with calling := Function.update nd.calling session none }
      if result ≠ .none then nd
      else if nd.channel c = none then (nd.setChannel c (some ∅) (some 0)).join source c
      else nd.join source c

/-- `command.USUBR`, from the node `source` -/
def USUBR (self : ℕ) (nd : Node) (source c : ℕ) : Node :=
  if source = self then nd
  else
    match nd.channel_remote c with
    | none => nd
    | some group => { nd with channel_remote := Function.update nd.channel_remote c (some (group.erase source)) }

/-- `command.USUB` -/
def USUB (self : ℕ) (nd : Node) (source c : ℕ) : List Packet × Node :=
  match nd.channel c with
  | none => ([], nd)
  | some group =>
      if source ∈ group then
        match nd.channel_n c with
        | none => ([], nd.setChannel c (some (group.erase source)) none)
        | some n =>
            if n - 1 = 0 ∧ c % 256 ≠ self then
              let nd := nd.setChannel c none none
              if nd.node_address (c % 256) then ([.USUBR c], nd)
              else ([], { nd with looking := nd.looking ++ [.USUB c] })
            else ([], nd.setChannel c (some (group.erase source)) (some (n - 1)))
      else ([], nd)

/-- The data center answers a request that waits for an address, with the address or with nothing. -/
def located (nd : Node) (i : ℕ) (w : Wait) (found : Bool) : List Packet × Node :=
  let nd := { nd with looking := nd.looking.eraseIdx i }
  if found then
    let nd := { nd with node_address := Function.update nd.node_address (w.c % 256) true }
    match w with
    | .SUB source c => nd.call source c
    | .USUB c => ([.USUBR c], nd)
  else ([], nd)

end Node

/-- The services of all nodes, and the messages between them. -/
structure System where
  node : ℕ → Node
  link : Links ℕ Packet

/-- A step of the service of a node: a request of a service there, the answer of the data center to one that
waits, or the arrival of a message from another node. -/
inductive Label where
  | SUB (n source c : ℕ)
  | USUB (n source c : ℕ)
  | located (n i : ℕ) (found : Bool)
  | receive (a b : ℕ)

namespace System

/-- A node acts, and sends something to another. -/
def act (s : System) (n m : ℕ) (r : List Packet × Node) : System where
  node := Function.update s.node n r.2
  link := s.link.push n m r.1

/-- What arrives at a node. -/
def arrive (s : System) (a b : ℕ) : Packet → System
  | .SUBR session c =>
      let (result, nd) := Node.SUBR b (s.node b) a c
      s.act b a ([.answer session result], nd)
  | .answer session result => s.act b a ([], (s.node b).answered session result)
  | .USUBR c => s.act b a ([], Node.USUBR b (s.node b) a c)

/-- The steps. -/
def step (s : System) : Label → Option System
  | .SUB n source c => some (s.act n (c % 256) (Node.SUB n (s.node n) source c))
  | .USUB n source c => some (s.act n (c % 256) (Node.USUB n (s.node n) source c))
  | .located n i found =>
      match (s.node n).looking[i]? with
      | none => none
      | some w => some (s.act n (w.c % 256) ((s.node n).located i w found))
  | .receive a b =>
      match s.link a b with
      | [] => none
      | p :: rest => some ({ s with link := s.link.set a b rest }.arrive a b p)

/-- In the beginning channels have no subscribers, and exist only at the nodes they belong to. -/
structure Started (s : System) : Prop where
  channel : ∀ n c, (s.node n).channel c = none ∨
    n = c % 256 ∧ (s.node n).channel c = some ∅ ∧ (s.node n).channel_n c = some 0
  remote : ∀ n c, (s.node n).channel_remote c = none
  looking : ∀ n, (s.node n).looking = []
  calling : ∀ n session, (s.node n).calling session = none
  link : ∀ a b, s.link a b = []

/-- The runs in which there is a channel. -/
def machine (c : ℕ) : Machine System Label where
  init s := s.Started ∧ (s.node (c % 256)).channel c ≠ none
  step := step

end System

end Multicast

end Skynet
