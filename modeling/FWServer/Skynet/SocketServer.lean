import Mathlib.Algebra.Group.Nat.Defs
import Mathlib.Data.Int.Notation
import Mathlib.Data.Nat.Notation
import Mathlib.Logic.Function.Basic

/-!
# The socket server

`skynet-src/socket_server.c`: the sockets of a node, in slots, and what the thread of the socket server does to
them on requests and on events.  What the operating system answers is given to each function: the results of
its writes in order, or the result of its read.  The bytes handed to the operating system, and whether the file
descriptor is closed, are part of what a function results in.

The registration with the event poll is left out, since nothing depends on it but which events arrive; so are
the addresses of datagrams, name resolution and the options of sockets.
-/

namespace Skynet

/-- `SOCKET_TYPE_…` -/
inductive SocketType where
  | invalid
  | reserve
  | plisten
  | listen
  | connecting
  | connected
  | halfclose
  | paccept
  | bind
  deriving DecidableEq

/-- `PROTOCOL_…` -/
inductive Protocol where
  | tcp
  | udp
  | udpv6
  deriving DecidableEq

/-- The priority of a package. -/
inductive Priority where
  | high
  | low
  deriving DecidableEq

/-- `struct write_buffer`: the address that was passed with the request, the address of the first byte still to
be written, and the bytes from there on, `sz` of them. -/
structure WriteBuffer where
  buffer : ℕ
  ptr : ℕ
  data : List UInt8
  userobject : Bool
  deriving DecidableEq

/-- `struct socket`; the field `size` is the size of the next read. -/
structure Socket where
  opaqueId : ℕ
  high : List WriteBuffer
  low : List WriteBuffer
  wbSize : ℤ
  fd : ℤ
  id : ℕ
  protocol : Protocol
  type : SocketType
  warnSize : ℤ
  size : ℕ
  deriving DecidableEq

/-- What is to be sent: a raw buffer, or an object with the address and the bytes that the functions registered
by `socket_server_userobject` tell for it. -/
inductive Payload where
  | raw (data : List UInt8)
  | object (ptr : ℕ) (data : List UInt8)
  deriving DecidableEq

/-- `struct request_send` -/
structure RequestSend where
  id : ℕ
  buffer : ℕ
  payload : Payload
  deriving DecidableEq

/-- The result of `write` or `sendto`: a number of bytes, `EINTR`, `EAGAIN`, or another error with its text. -/
inductive WriteResult where
  | count (n : ℕ)
  | intr
  | again
  | error (text : String)
  deriving DecidableEq

/-- The result of `read`: bytes, of which there are none when the peer has closed its side, `EINTR` or `EAGAIN`, or
another error with its text. -/
inductive ReadResult where
  | bytes (data : List UInt8)
  | again
  | error (text : String)
  deriving DecidableEq

/-- `struct socket_message` -/
structure SocketMessage where
  id : ℕ
  opaqueId : ℕ
  ud : ℤ
  data : Option String
  deriving DecidableEq

/-- What a function returns: -1, or one of `SOCKET_…` with its message. -/
inductive Reply where
  | none
  | data (m : SocketMessage) (bytes : List UInt8)
  | close (m : SocketMessage)
  | opened (m : SocketMessage)
  | accept (m : SocketMessage)
  | err (m : SocketMessage)
  | warning (m : SocketMessage)
  deriving DecidableEq

/-- A failed assertion; or results of the operating system that it cannot give. -/
inductive Fault where
  | assertion
  | unfit
  deriving DecidableEq

/-- What a function results in: the socket, the bytes written, whether the file descriptor has been closed, whether a
package has been accepted, the results of writes that are left, and what it returns. -/
structure Outcome where
  socket : Socket
  sent : List UInt8
  closed : Bool
  accepted : Bool
  rest : List WriteResult
  reply : Reply

def MIN_READ_BUFFER : ℕ := 64

def WARNING_SIZE : ℤ := 1024 * 1024

/-- `MAX_SOCKET` -/
def MAX_SOCKET : ℕ := 2 ^ 16

namespace RequestSend

/-- `send_object_init`: the address of the bytes, the bytes, and whether it is a user object. -/
def object (request : RequestSend) : ℕ × List UInt8 × Bool :=
  match request.payload with
  | .raw data => (request.buffer, data, false)
  | .object ptr data => (ptr, data, true)

/-- The bytes of the package. -/
def bytes (request : RequestSend) : List UInt8 :=
  request.object.2.1

/-- The buffer `append_sendbuffer_` makes, of which `n` bytes have been written. -/
def writeBuffer (request : RequestSend) (n : ℕ) : WriteBuffer where
  buffer := request.buffer
  ptr := request.object.1 + n
  data := request.bytes.drop n
  userobject := request.object.2.2

end RequestSend

/-! ### Writing -/

/-- What `send_list` results in: the bytes written, the list, whether a write failed, and the results left. -/
structure Sent where
  sent : List UInt8
  list : List WriteBuffer
  failed : Bool
  rest : List WriteResult

/-- More bytes written before. -/
def Sent.after (sent : List UInt8) (x : Sent) : Sent :=
  { x with sent := sent ++ x.sent }

/-- `send_list_tcp` -/
def sendListTcp : List WriteBuffer → List WriteResult → Option Sent
  | [], results => some ⟨[], [], false, results⟩
  | _ :: _, [] => none
  | tmp :: list, .intr :: results => sendListTcp (tmp :: list) results
  | tmp :: list, .again :: results => some ⟨[], tmp :: list, false, results⟩
  | tmp :: list, .error _ :: results => some ⟨[], tmp :: list, true, results⟩
  | tmp :: list, .count n :: results =>
      if n > tmp.data.length then none
      else if n ≠ tmp.data.length then
        some ⟨tmp.data.take n, { tmp with ptr := tmp.ptr + n, data := tmp.data.drop n } :: list, false, results⟩
      else (sendListTcp list results).map (Sent.after tmp.data)

/-- `send_list_udp` -/
def sendListUdp : List WriteBuffer → List WriteResult → Option Sent
  | [], results => some ⟨[], [], false, results⟩
  | _ :: _, [] => none
  | tmp :: list, .count _ :: results => (sendListUdp list results).map (Sent.after tmp.data)
  | tmp :: list, _ :: results => some ⟨[], tmp :: list, false, results⟩

/-- `send_list` -/
def sendList (protocol : Protocol) (list : List WriteBuffer) (results : List WriteResult) : Option Sent :=
  match protocol with
  | .tcp => sendListTcp list results
  | _ => sendListUdp list results

/-- `list_uncomplete` -/
def listUncomplete (list : List WriteBuffer) : Bool :=
  match list with
  | [] => false
  | wb :: _ => wb.ptr ≠ wb.buffer

namespace Socket

variable (s : Socket)

/-- The message a function fills in for the socket. -/
def message (ud : ℤ) (data : Option String) : SocketMessage :=
  ⟨s.id, s.opaqueId, ud, data⟩

/-- `force_close`: the socket, and whether its file descriptor is closed. -/
def forceClose : Except Fault (Socket × Bool) :=
  match s.type with
  | .invalid => .ok (s, false)
  | .reserve => .error .assertion
  | type => .ok ({ s with high := [], low := [], type := .invalid }, type ≠ .bind)

/-- `send_buffer_empty` -/
def sendBufferEmpty : Bool :=
  s.high = [] ∧ s.low = []

/-- The end of a function that closes the socket and returns `reply`, after the bytes `sent`. -/
def closeWith (sent : List UInt8) (rest : List WriteResult) (reply : Reply) : Except Fault Outcome :=
  match s.forceClose with
  | .ok (s, closed) => .ok ⟨s, sent, closed, false, rest, reply⟩
  | .error e => .error e

/-- Step 4 of `send_buffer`. -/
def sendBufferDone (sent : List UInt8) (rest : List WriteResult) : Except Fault Outcome :=
  if ¬ (s.sendBufferEmpty ∧ s.wbSize = 0) then .error .assertion
  else if s.type = .halfclose then
    s.closeWith sent rest (.close (s.message 0 none))
  else if s.warnSize > 0 then
    let s := { s with warnSize := 0 }
    .ok ⟨s, sent, false, false, rest, .warning (s.message 0 none)⟩
  else .ok ⟨s, sent, false, false, rest, .none⟩

/-- `raise_uncomplete` -/
def raiseUncomplete : Except Fault Socket :=
  match s.low with
  | [] => .error .assertion
  | tmp :: low => if s.high = [] then .ok { s with high := [tmp], low := low } else .error .assertion

/-- `send_buffer` -/
def sendBuffer (results : List WriteResult) : Except Fault Outcome :=
  if listUncomplete s.low then .error .assertion
  else
    -- step 1
    match sendList s.protocol s.high results with
    | none => .error .unfit
    | some high =>
        let s := { s with high := high.list, wbSize := s.wbSize - high.sent.length }
        if high.failed then s.closeWith high.sent high.rest (.close (s.message 0 none))
        else if s.high = [] then
          if s.low ≠ [] then
            -- step 2
            match sendList s.protocol s.low high.rest with
            | none => .error .unfit
            | some low =>
                let s := { s with low := low.list, wbSize := s.wbSize - low.sent.length }
                let sent := high.sent ++ low.sent
                if low.failed then s.closeWith sent low.rest (.close (s.message 0 none))
                else if listUncomplete s.low then
                  -- step 3
                  match s.raiseUncomplete with
                  | .ok s => .ok ⟨s, sent, false, false, low.rest, .none⟩
                  | .error e => .error e
                else s.sendBufferDone sent low.rest
          else s.sendBufferDone high.sent high.rest
        else .ok ⟨s, high.sent, false, false, high.rest, .none⟩

/-! ### Requests -/

/-- `append_sendbuffer` and, for datagrams, `append_sendbuffer_udp`: appends what is left of a package to the list of
a priority. -/
def append (request : RequestSend) (priority : Priority) (n : ℕ) : Socket :=
  let buf := request.writeBuffer n
  let s := { s with wbSize := s.wbSize + buf.data.length }
  match priority with
  | .high => { s with high := s.high ++ [buf] }
  | .low => { s with low := s.low ++ [buf] }

/-- The end of `send_socket`: a package has been appended. -/
def appended (sent : List UInt8) (rest : List WriteResult) : Outcome :=
  if s.wbSize ≥ WARNING_SIZE ∧ s.wbSize ≥ s.warnSize then
    let s := { s with warnSize := if s.warnSize = 0 then WARNING_SIZE * 2 else s.warnSize * 2 }
    let ud := if s.wbSize % 1024 = 0 then s.wbSize / 1024 else s.wbSize / 1024 + 1
    ⟨s, sent, false, true, rest, .warning (s.message ud none)⟩
  else ⟨s, sent, false, true, rest, .none⟩

/-- Nothing is done. -/
def unchanged (results : List WriteResult) (reply : Reply) : Outcome :=
  ⟨s, [], false, false, results, reply⟩

/-- The write of a package on a socket with nothing queued. -/
def sendDirect (request : RequestSend) (priority : Priority) : List WriteResult → Except Fault Outcome
  | [] => .error .unfit
  | result :: results =>
      let size := request.bytes.length
      match s.protocol, result with
      | .tcp, .error _ => s.closeWith [] results (.close (s.message 0 none))
      | .tcp, result =>
          let n := match result with
            | .count n => n
            | _ => 0
          if n > size then .error .unfit
          else if n = size then .ok ⟨s, request.bytes, false, true, results, .none⟩
          else .ok ((s.append request .high n).appended (request.bytes.take n) results)
      | _, .count n =>
          if n = size then .ok ⟨s, request.bytes, false, true, results, .none⟩
          else .ok ((s.append request priority 0).appended [] results)
      | _, _ => .ok ((s.append request priority 0).appended [] results)

/-- `send_socket`, on the slot of the id -/
def sendSocket (request : RequestSend) (priority : Priority) (results : List WriteResult) : Except Fault Outcome :=
  if s.type = .invalid ∨ s.id ≠ request.id ∨ s.type = .halfclose ∨ s.type = .paccept then
    .ok (s.unchanged results .none)
  else if s.type = .plisten ∨ s.type = .listen then .ok (s.unchanged results .none)
  else if s.sendBufferEmpty ∧ s.type = .connected then s.sendDirect request priority results
  else .ok ((s.append request priority 0).appended [] results)

/-- `close_socket`, on the slot of the id -/
def closeSocket (id : ℕ) (shutdown : Bool) (opaqueId : ℕ) (results : List WriteResult) : Except Fault Outcome :=
  let message : SocketMessage := ⟨id, opaqueId, 0, none⟩
  if s.type = .invalid ∨ s.id ≠ id then .ok (s.unchanged results (.close message))
  else
    let finish (s : Socket) (sent : List UInt8) (rest : List WriteResult) : Except Fault Outcome :=
      if shutdown ∨ s.sendBufferEmpty then s.closeWith sent rest (.close message)
      else .ok ⟨{ s with type := .halfclose }, sent, false, false, rest, .none⟩
    if ¬ s.sendBufferEmpty then
      match s.sendBuffer results with
      | .error e => .error e
      | .ok x =>
          match x.reply with
          | .none => finish x.socket x.sent x.rest
          | .warning _ => finish x.socket x.sent x.rest
          | _ => .ok x
    else finish s [] results

/-- `start_socket`, on the slot of the id; `sp_add` fails with the text of an error, if at all. -/
def startSocket (id opaqueId : ℕ) (failure : Option String) : Except Fault Outcome :=
  if s.type = .invalid ∨ s.id ≠ id then
    .ok (s.unchanged [] (.err ⟨id, opaqueId, 0, some "invalid socket"⟩))
  else if s.type = .paccept ∨ s.type = .plisten then
    match failure with
    | some text => s.closeWith [] [] (.err ⟨s.id, s.opaqueId, 0, some text⟩)
    | none =>
        let type := if s.type = .paccept then .connected else .listen
        .ok ({ s with type := type, opaqueId := opaqueId }.unchanged []
          (.opened ⟨id, opaqueId, 0, some "start"⟩))
  else if s.type = .connected then
    .ok ({ s with opaqueId := opaqueId }.unchanged [] (.opened ⟨id, opaqueId, 0, some "transfer"⟩))
  else .ok (s.unchanged [] .none)

/-! ### Events -/

/-- `forward_message_tcp` -/
def forwardMessageTcp (result : ReadResult) : Except Fault Outcome :=
  match result with
  | .again => .ok (s.unchanged [] .none)
  | .error text => s.closeWith [] [] (.err (s.message 0 (some text)))
  | .bytes data =>
      if data.length > s.size then .error .unfit
      else if data = [] then s.closeWith [] [] (.close (s.message 0 none))
      else if s.type = .halfclose then .ok (s.unchanged [] .none)
      else
        let size :=
          if data.length = s.size then s.size * 2
          else if s.size > MIN_READ_BUFFER ∧ data.length * 2 < s.size then s.size / 2
          else s.size
        .ok ({ s with size := size }.unchanged [] (.data (s.message data.length none) data))

/-- `report_connect`; the peer is the name of the address, if it is known. -/
def reportConnect (failure : Option String) (peer : Option String) : Except Fault Outcome :=
  match failure with
  | some text => s.closeWith [] [] (.err (s.message 0 (some text)))
  | none => .ok ({ s with type := .connected }.unchanged [] (.opened (s.message 0 peer)))

/-! ### Stale requests -/

section Stale

variable {s} {id : ℕ}

/-- A request that names an id that is not the one of the slot, or of a slot that is not in use, does nothing. -/
theorem sendSocket_stale {request : RequestSend} (h : s.type = .invalid ∨ s.id ≠ request.id) (priority : Priority)
    (results : List WriteResult) :
  s.sendSocket request priority results = .ok (s.unchanged results .none)
  := by
  rw [sendSocket, if_pos]
  rcases h with htype | hid
  · exact .inl htype
  · exact .inr (.inl hid)

theorem closeSocket_stale (h : s.type = .invalid ∨ s.id ≠ id) (shutdown : Bool) (opaqueId : ℕ)
    (results : List WriteResult) :
  s.closeSocket id shutdown opaqueId results = .ok (s.unchanged results (.close ⟨id, opaqueId, 0, none⟩))
  := if_pos h

theorem startSocket_stale (h : s.type = .invalid ∨ s.id ≠ id) (opaqueId : ℕ) (failure : Option String) :
  s.startSocket id opaqueId failure = .ok (s.unchanged [] (.err ⟨id, opaqueId, 0, some "invalid socket"⟩))
  := by
  unfold startSocket
  exact if_pos h

end Stale

end Socket

end Skynet
