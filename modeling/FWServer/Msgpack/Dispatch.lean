import FWServer.Msgpack.Netpack
import FWServer.Msgpack.Pack

/-!
# The dispatch of packages

`common/msgpack/pack.lua` and the client protocol of `services/skynet/agent.lua`: what has arrived on the
connection of an agent goes through the filter, and the packages found are executed one after the other.
A package that comes alone is executed by `dispatch_msg`, packages that come together by
`dispatch_queue`; the agent is given a list of messages in either case.

An agent is a server, and serves one connection.
-/

open Lua Pack

namespace Dispatch

/-- What `MessagePack.unpack` makes of a package once `cryptpack` has decoded it with a key; `none` is an
error. -/
abbrev Decode : Type := Key → List UInt8 → Option Msg

/-- The end of a connection, and what it has put out. -/
structure Session where
  pack : Pack.State
  out : List Output

/-- The end of a connection, and the queue of the filter. -/
structure Connection where
  filterqueue : Option Netpack.Queue
  session : Session

/-- Whether a message counts as true in a condition. -/
def truthy : Msg → Bool
  | .tab _ => true
  | .val v => v.truthy

/-- Whether a message is `nil`. -/
def isNil : Msg → Bool
  | .tab _ => false
  | .val v => v = .nil

variable (decode : Decode) (nowt : ℤ)

/-- `pack:execute_msg`: what it returns, or `none` if it raises an error.  Before the handshake is over it
returns nothing, which is `nil` to its callers, and raises an error if the message is no table. -/
def executeMsg (msg : List UInt8) (sz : ℕ) (s : Session) : Session × Option Msg :=
  match decode (key s.pack) (msg.take sz) with
  | none => (s, none)
  | some tomsg =>
      let (pack, out) := Pack.executeMsg 0 nowt tomsg s.pack
      let r :=
        if s.pack.mState = .num 3 then some tomsg
        else
          match tomsg with
          | .tab _ => some (.val .nil)
          | .val _ => none
      (⟨pack, s.out ++ out⟩, r)

/-- `dispatch_msg`: the list it returns, or `none` if it raises an error. -/
def dispatchMsg (msg : List UInt8) (sz : ℕ) (s : Session) : Session × Option (List Msg) :=
  let (s, r) := executeMsg decode nowt msg sz s
  (s, r.map fun r => [r])

/-- The loop of `dispatch_queue`, with the results `rs` so far.  An error leaves the rest in the queue. -/
def dispatchRest (rs : List Msg) (q : Option Netpack.Queue) (s : Session) :
    Connection × Option (List Msg) :=
  match _hpop : Netpack.lpop q with
  | none => (⟨q, s⟩, some rs)
  | some (pack, q') =>
      match executeMsg decode nowt pack.buffer pack.size s with
      | (s, none) => (⟨some q', s⟩, none)
      | (s, some r) => dispatchRest (if truthy r then rs ++ [r] else rs) (some q') s
termination_by (Netpack.getQueue q).ring.contents.length
decreasing_by
  rw [Netpack.lpop_contents _hpop, List.length_cons]
  exact Nat.lt_succ_self _

/-- `dispatch_queue`.  It returns `nil` where the queue is empty, which the agent takes for no messages. -/
def dispatchQueue (q : Option Netpack.Queue) (s : Session) : Connection × Option (List Msg) :=
  dispatchRest decode nowt [] q s

/-- `pack:unpackmsg`, and `pack:dispatch` -/
def unpackmsg (fd : Netpack.Fd) (chunk : List UInt8) (c : Connection) :
    Connection × Option (List Msg) :=
  match Netpack.lfilter c.filterqueue fd chunk with
  | (q, .nothing) => (⟨q, c.session⟩, some [])
  | (q, .data _ msg sz) =>
      let (s, rs) := dispatchMsg decode nowt msg sz c.session
      (⟨q, s⟩, rs)
  | (q, .more) => dispatchQueue decode nowt q c.session

/-- The messages `ipairs` goes through. -/
def iterated (rs : List Msg) : List Msg :=
  rs.takeWhile fun r => !isNil r

/-- The dispatch of the client protocol: the messages passed to `AGENT.recv`.  What arrives is dropped
where `unpack_msg` raises an error. -/
def dispatch (fd : Netpack.Fd) (c : Connection) (chunk : List UInt8) : Connection × List Msg :=
  let (c, rs) := unpackmsg decode nowt fd chunk c
  (c, (rs.map iterated).getD [])

/-- The messages passed to `AGENT.recv` for the chunks that arrive one after the other. -/
def dispatchAll (fd : Netpack.Fd) (c : Connection) : List (List UInt8) → Connection × List Msg
  | [] => (c, [])
  | chunk :: chunks =>
      let (c, rs) := dispatch decode nowt fd c chunk
      let (c, rs') := dispatchAll fd c chunks
      (c, rs ++ rs')

end Dispatch
