import FWServer.Kernel.Machine
import FWServer.Lua.Value

/-!
# The handshake of a connection

`common/msgpack/pack.lua`: the two ends of a connection agree on whether messages are
encrypted, and with which key.  Both ends run the same script, which is that of a client when
`isclient` is 1 and that of a server when it is 0.

Encryption is symbolic: a packet is the message together with the key it was encoded with, and
whoever decodes it with another key gets nothing out of it.
-/

open Lua

namespace Pack

/-- `checknotip` -/
def checknotip : Value := .str "protbuf"

/-- `netcheckpackflag`, the protocol of encrypted messages. -/
def netcheckpackflag : Value := .str "WTF\n"

/-- The fields of an end of a connection. -/
structure State where
  mState : Value
  mProto : Value
  mCkey : Value
  deriving DecidableEq

/-- What a message decodes to: a table or another value. -/
inductive Msg where
  | tab (t : Table)
  | val (v : Value)

/-- The key a message is encoded or decoded with: that of the handshake, a negotiated one, or
none. -/
inductive Key where
  | handshake
  | ckey (k : Value)
  | plain
  deriving DecidableEq

/-- An encoded message. -/
structure Packet where
  key : Key
  msg : Msg

/-- What an end does besides changing its fields: it sends a packet, or calls `m_endfunc`. -/
inductive Output where
  | send (p : Packet)
  | endfunc

/-! ### Encoding -/

/-- The key `_checkmsg` takes, for sending as for receiving. -/
def key (s : State) : Key :=
  if s.mState ≠ .num 3 then .handshake
  else if s.mProto = netcheckpackflag then .ckey s.mCkey
  else .plain

/-- `pack:packmsg` -/
def packmsg (msg : Msg) (s : State) : Packet :=
  ⟨key s, msg⟩

/-- `_checkmsg` on a received packet. -/
def checkmsg (p : Packet) (s : State) : Option Msg :=
  if p.key = key s then some p.msg else none

/-! ### The handshake -/

variable (isclient nowt : ℤ)

/-- `pack:_sendhandshake`: the packet of a handshake table. -/
def sendhandshake (proto state : Value) (s : State) : Packet :=
  let tab := Table.ofFields
    [("state", state), ("proto", proto), ("isclient", .num isclient)]
  let tab := if state = .num 3 ∧ isclient = 0 then tab.set (.str "ckey") s.mCkey else tab
  packmsg (.tab (tab.set (.num nowt) (.num nowt))) s

/-- `pack:start`, with the key `ckey` a server draws. -/
def start (ckey : Value) : State × List Output :=
  if isclient = 1 then
    let s := ⟨.num 1, .str "", .nil⟩
    (s, [.send (sendhandshake isclient nowt checknotip .nil s)])
  else if isclient = 0 then
    (⟨.num 1, netcheckpackflag, ckey⟩, [])
  else
    (⟨.num 1, .str "", .nil⟩, [])

/-- `pack:_isServer` -/
def isServer (tab : Table) : Bool :=
  tab.get (.str "isclient") = .num 0 && isclient = 1

/-- `pack:_isClient` -/
def isClient (tab : Table) : Bool :=
  tab.get (.str "isclient") = .num 1 && isclient = 0

/-- The end of `pack:_recvhandshake`, for a table that does not fit. -/
def reset (s : State) : State × List Output :=
  ({ s with mState := .num 1, mProto := .str "" }, [])

/-- `pack:_recvhandshake` -/
def recvhandshake (msgtab : Table) (s : State) : State × List Output :=
  let proto := msgtab.get (.str "proto")
  let state := msgtab.get (.str "state")
  if s.mState = .num 1 then
    if isClient isclient msgtab then
      if proto = checknotip then
        let s := { s with mState := .num 2 }
        (s, [.send (sendhandshake isclient nowt checknotip s.mState s)])
      else reset s
    else if isServer isclient msgtab then
      if proto = checknotip then
        let s := { s with mState := state }
        (s, [.send (sendhandshake isclient nowt checknotip s.mState s)])
      else reset s
    else reset s
  else if s.mState = .num 2 then
    if isClient isclient msgtab then
      if state = .num 2 ∧ proto = checknotip then
        -- the answer is sent, and encoded, before the state changes
        ({ s with mState := .num 3 },
          [.send (sendhandshake isclient nowt s.mProto (.num 3) s), .endfunc])
      else reset s
    else if isServer isclient msgtab then
      (⟨state, proto, msgtab.get (.str "ckey")⟩, if state = .num 3 then [.endfunc] else [])
    else reset s
  else reset s

/-- `pack:execute_msg` on a decoded message.  After the handshake the message goes to the
application; before, a value that is not a table raises an error. -/
def executeMsg (tomsg : Msg) (s : State) : State × List Output :=
  if s.mState = .num 3 then (s, [])
  else
    match tomsg with
    | .tab msgtab => recvhandshake isclient nowt msgtab s
    | .val _ => (s, [])

/-- `pack:execute_msg` on a packet. -/
def execute (p : Packet) (s : State) : State × List Output :=
  match checkmsg p s with
  | none => (s, [])
  | some tomsg => executeMsg isclient nowt tomsg s

end Pack
