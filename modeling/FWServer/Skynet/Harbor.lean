import FWServer.Kernel.BigEndian
import FWServer.Skynet.MessageQueue
import Mathlib.Logic.Function.Basic

/-!
# The harbor

`service-src/service_harbor.c`: the service that sends messages to the services of other nodes, its slaves,
and passes on those that arrive from them.  Messages to a name wait in the queue of the name until it is bound,
those to a slave in the queue of the slave until it is connected.

A buffer in memory is given by a type `β` and the bytes it holds; so it is seen which buffer a message is sent
with.  The ring buffers of the queues and the buckets of the hash table are left out: a queue is a list, and
the hash table a function on names.  `found` says whether there is a service with a given handle here.
-/

namespace Skynet

namespace Harbor

/-- A global name, without the zeros after it. -/
abbrev Name : Type := List UInt8

abbrev GLOBALNAME_LENGTH : ℕ := 16
abbrev REMOTE_MAX : ℕ := 256
abbrev HANDLE_MASK : ℕ := 0xffffff
abbrev HANDLE_REMOTE_SHIFT : ℕ := 24
abbrev HEADER_COOKIE_LENGTH : ℕ := 12
abbrev UINT32_MAX : ℕ := 0xffffffff

/-- An `int`, as the number of a session. -/
abbrev Session : Type := { n : ℤ // -2 ^ 31 ≤ n ∧ n < 2 ^ 31 }

/-- The `uint32_t` that a number is converted to. -/
def uint32 (n : ℤ) : ℕ :=
  (n % 2 ^ 32).toNat

/-- `struct remote_message_header`; the type of the message is in the high bits of the destination. -/
structure Header where
  source : ℕ
  destination : ℕ
  session : ℕ
  deriving DecidableEq

/-- `struct harbor_msg`; the size is that of the buffer. -/
structure HarborMsg (β : Type) where
  header : Header
  buffer : β

/-- `struct keyvalue`, without its key. -/
structure KeyValue (β : Type) where
  value : ℕ
  queue : Option (List (HarborMsg β))

/-- The states of a connection. -/
inductive Status where
  | WAIT
  | HANDSHAKE
  | HEADER
  | CONTENT
  | DOWN
  deriving DecidableEq

/-- `struct slave`; the pointer `recv_buffer` is null where the list is empty. -/
structure Slave (β : Type) where
  fd : ℕ
  queue : Option (List (HarborMsg β))
  status : Status
  length : ℕ
  read : ℕ
  size : List UInt8
  recv_buffer : List UInt8

end Harbor

/-- `struct harbor` -/
structure Harbor (β : Type) where
  id : ℕ
  slave : ℕ
  map : Harbor.Name → Option (Harbor.KeyValue β)
  s : ℕ → Harbor.Slave β

namespace Harbor

/-- What the harbor puts out: a message for a service here, the buffer of one, the buffer of a message for
another node with its header, the byte of a handshake; and it starts and closes sockets. -/
inductive Output (β : Type) where
  | send (m : Send)
  | deliver (source destination type : ℕ) (session : ℤ) (buffer : β)
  | remote (fd : ℕ) (buffer : β) (cookie : Header)
  | handshake (fd : ℕ) (id : UInt8)
  | start (fd : ℕ)
  | close (fd : ℕ)

variable {β : Type} (data : β → List UInt8) (found : ℕ → Bool)

/-- `h->s[id] = s` -/
def setSlave (h : Harbor β) (id : ℕ) (s : Slave β) : Harbor β :=
  { h with s := Function.update h.s id s }

/-- The entry of a name in the hash table is set. -/
def setName (h : Harbor β) (name : Name) (node : KeyValue β) : Harbor β :=
  { h with map := Function.update h.map name (some node) }

/-- `hash_search`, and `hash_insert` if there is no entry. -/
def search (h : Harbor β) (name : Name) : KeyValue β :=
  (h.map name).getD ⟨0, none⟩

/-! ### Connections -/

/-- `close_harbor` -/
def closeHarbor (h : Harbor β) (id : ℕ) : List (Output β) × Harbor β :=
  let s := h.s id
  (if s.fd ≠ 0 then [.close s.fd] else [], h.setSlave id { s with status := .DOWN, queue := none })

/-- `header_to_message` -/
def headerToMessage (header : Header) : List UInt8 :=
  BigEndian.encode 4 header.source ++ BigEndian.encode 4 header.destination ++
    BigEndian.encode 4 header.session

/-- `message_to_header` -/
def messageToHeader (message : List UInt8) : Header where
  source := BigEndian.decode (message.take 4)
  destination := BigEndian.decode ((message.drop 4).take 4)
  session := BigEndian.decode ((message.drop 8).take 4)

/-- `forward_local_messsage`; `skynet_send` returns the session, or a negative number if there is nobody. -/
def forwardLocal (h : Harbor β) (msg : List UInt8) : List (Output β) :=
  let sz := msg.length
  let header := messageToHeader (msg.drop (sz - HEADER_COOKIE_LENGTH))
  let type := header.destination >>> HANDLE_REMOTE_SHIFT
  let destination := (header.destination &&& HANDLE_MASK) ||| (h.id <<< HANDLE_REMOTE_SHIFT)
  let session := LittleEndian.toInt header.session
  let out : Output β := .send ⟨header.source, destination, type ||| PTYPE_TAG_DONTCOPY, session,
    msg.take (sz - HEADER_COOKIE_LENGTH)⟩
  if found destination ∧ 0 ≤ session then [out]
  else if type ≠ PTYPE_ERROR then [out, .send ⟨destination, header.source, PTYPE_ERROR, session, []⟩]
  else [out]

/-- The bytes `send_remote` puts on a socket. -/
def sendbuf (buffer : β) (cookie : Header) : List UInt8 :=
  BigEndian.encode 4 ((data buffer).length + HEADER_COOKIE_LENGTH) ++ data buffer ++ headerToMessage cookie

/-- `send_remote` -/
def sendRemote (fd : ℕ) (buffer : β) (cookie : Header) : List (Output β) :=
  if (data buffer).length + HEADER_COOKIE_LENGTH > UINT32_MAX then []
  else [.remote fd buffer cookie]

/-- `dispatch_queue` -/
def dispatchQueue (h : Harbor β) (id : ℕ) : List (Output β) × Harbor β :=
  let s := h.s id
  match s.queue with
  | none => ([], h)
  | some queue =>
      (queue.flatMap fun m => sendRemote data s.fd m.buffer m.header, h.setSlave id { s with queue := none })

/-! ### What arrives -/

/-- `memcpy` to `buf + i` -/
def memcpy (buf : List UInt8) (i : ℕ) (bytes : List UInt8) : List UInt8 :=
  buf.take i ++ bytes ++ buf.drop (i + bytes.length)

/-- The case `STATUS_CONTENT` of `push_socket_data`; in the end what is left of the buffer if the loop goes
on. -/
def content (h : Harbor β) (id : ℕ) (buffer : List UInt8) :
    List (Output β) × Harbor β × Option (List UInt8) :=
  let s := h.s id
  let need := s.length - s.read
  if buffer.length < need then
    ([], h.setSlave id { s with
      recv_buffer := memcpy s.recv_buffer s.read buffer
      read := s.read + buffer.length }, none)
  else
    let out := forwardLocal found h (memcpy s.recv_buffer s.read (buffer.take need))
    let h := h.setSlave id { s with length := 0, read := 0, recv_buffer := [], status := .HEADER }
    (out, h, if buffer.drop need = [] then none else some (buffer.drop need))

/-- The case `STATUS_HEADER`, which goes through to the next. -/
def header (h : Harbor β) (id : ℕ) (buffer : List UInt8) :
    List (Output β) × Harbor β × Option (List UInt8) :=
  let s := h.s id
  let need := 4 - s.read
  if buffer.length < need then
    ([], h.setSlave id { s with
      size := memcpy s.size s.read buffer
      read := s.read + buffer.length }, none)
  else
    let size := memcpy s.size s.read (buffer.take need)
    if size.headD 0 ≠ 0 then
      let (out, h) := closeHarbor (h.setSlave id { s with size := size }) id
      (out, h, none)
    else
      let length := BigEndian.decode ((size.drop 1).take 3)
      let h := h.setSlave id { s with
        size := size
        length := length
        read := 0
        recv_buffer := List.replicate length 0
        status := .CONTENT }
      if buffer.drop need = [] then ([], h, none) else content found h id (buffer.drop need)

/-- The case `STATUS_HANDSHAKE`, which goes through to the next if anything is left of the buffer.  A chunk is
never empty. -/
def checkId (h : Harbor β) (id : ℕ) : List UInt8 → List (Output β) × Harbor β × Option (List UInt8)
  | [] => ([], h, none)
  | remote_id :: buffer =>
      if remote_id.toNat ≠ id then
        let (out, h) := closeHarbor h id
        (out, h, none)
      else
        let (out, h) := dispatchQueue data (h.setSlave id { h.s id with status := .HEADER }) id
        if buffer = [] then (out, h, some [])
        else
          let (out', h, rest) := header found h id buffer
          (out ++ out', h, rest)

/-- One turn of the loop of `push_socket_data`. -/
def turn (h : Harbor β) (id : ℕ) (buffer : List UInt8) : List (Output β) × Harbor β × Option (List UInt8) :=
  match (h.s id).status with
  | .HANDSHAKE => checkId data found h id buffer
  | .HEADER => header found h id buffer
  | .CONTENT => content found h id buffer
  | _ => ([], h, none)

/-- The loop, for so many turns at most. -/
def pushLoop (id : ℕ) : ℕ → Harbor β → List UInt8 → List (Output β) × Harbor β
  | 0, h, _ => ([], h)
  | n + 1, h, buffer =>
      match turn data found h id buffer with
      | (out, h, none) => (out, h)
      | (out, h, some rest) =>
          let (out', h) := pushLoop id n h rest
          (out ++ out', h)

/-- The slave that is connected by a socket. -/
def slaveOf (h : Harbor β) (fd : ℕ) : Option ℕ :=
  (List.range' 1 (REMOTE_MAX - 1)).find? fun i => (h.s i).fd = fd

/-- `push_socket_data`.  Every turn but the first takes something from the buffer. -/
def pushSocketData (h : Harbor β) (fd : ℕ) (buffer : List UInt8) : List (Output β) × Harbor β :=
  match h.slaveOf fd with
  | none => ([], h)
  | some id => pushLoop data found id (buffer.length + 2) h buffer

/-! ### Names and commands -/

/-- `dispatch_name_queue` for the name with the entry `node`; the queue that is left is released by the
caller. -/
def dispatchNameQueue (h : Harbor β) (node : KeyValue β) : List (Output β) × Harbor β :=
  let queue := node.queue.getD []
  let handle := node.value
  let harbor_id := handle >>> HANDLE_REMOTE_SHIFT
  let s := h.s harbor_id
  if s.fd = 0 then
    if s.status = .DOWN then ([], h)
    else
      let queue := s.queue.getD [] ++ queue
      if harbor_id = h.slave >>> HANDLE_REMOTE_SHIFT then
        (queue.map fun m => .deliver m.header.source handle
          ((m.header.destination >>> HANDLE_REMOTE_SHIFT) ||| PTYPE_TAG_DONTCOPY)
          (LittleEndian.toInt m.header.session) m.buffer,
          h.setSlave harbor_id { s with queue := none })
      else ([], h.setSlave harbor_id { s with queue := some queue })
  else
    (queue.flatMap fun m => sendRemote data s.fd m.buffer
      { m.header with destination := m.header.destination ||| (handle &&& HANDLE_MASK) }, h)

/-- `update_name` -/
def updateName (h : Harbor β) (name : Name) (handle : ℕ) : List (Output β) × Harbor β :=
  let node : KeyValue β := { h.search name with value := handle }
  match node.queue with
  | none => ([], h.setName name node)
  | some _ =>
      let (out, h) := dispatchNameQueue data h node
      (out, h.setName name { node with queue := none })

/-- `remote_send_handle` -/
def remoteSendHandle (h : Harbor β) (source destination : ℕ) (type : UInt8) (session : Session)
    (buffer : β) : List (Output β) × Harbor β :=
  let harbor_id := destination >>> HANDLE_REMOTE_SHIFT
  if harbor_id = h.id then
    ([.deliver source destination (type.toNat ||| PTYPE_TAG_DONTCOPY) session.val buffer], h)
  else
    let s := h.s harbor_id
    let header : Header := ⟨source, (type.toNat <<< HANDLE_REMOTE_SHIFT) ||| (destination &&& HANDLE_MASK),
      uint32 session.val⟩
    if s.fd = 0 ∨ s.status = .HANDSHAKE then
      if s.status = .DOWN then ([.send ⟨destination, source, PTYPE_ERROR, 0, []⟩], h)
      else ([], h.setSlave harbor_id { s with queue := some (s.queue.getD [] ++ [⟨header, buffer⟩]) })
    else (sendRemote data s.fd buffer header, h)

/-- The text of a query for a name. -/
def queryText (name : Name) : List UInt8 :=
  0x51 :: 0x20 :: name

/-- `remote_send_name` -/
def remoteSendName (h : Harbor β) (source : ℕ) (name : Name) (type : UInt8) (session : Session)
    (buffer : β) : List (Output β) × Harbor β :=
  let node := h.search name
  if node.value = 0 then
    let header : Header := ⟨source, type.toNat <<< HANDLE_REMOTE_SHIFT, uint32 session.val⟩
    ([.send ⟨0, h.slave, PTYPE_TEXT, 0, queryText name⟩],
      h.setName name { node with queue := some (node.queue.getD [] ++ [⟨header, buffer⟩]) })
  else remoteSendHandle data (h.setName name node) source node.value type session buffer

/-- The command `N` of `harbor_command`, from the service `source`. -/
def commandN (h : Harbor β) (name : Name) (source : ℕ) : List (Output β) × Harbor β :=
  if name.length = 0 ∨ name.length ≥ GLOBALNAME_LENGTH then ([], h) else updateName data h name source

/-- The commands `S` and `A`; `connects` says whether it is `S`. -/
def commandSA (h : Harbor β) (connects : Bool) (fd id : ℕ) : List (Output β) × Harbor β :=
  if fd = 0 ∨ id = 0 ∨ id ≥ REMOTE_MAX then ([], h)
  else
    let slave := h.s id
    if slave.fd ≠ 0 then ([], h)
    else
      let out : List (Output β) := [.start fd, .handshake fd (UInt8.ofNat h.id)]
      if connects then (out, h.setSlave id { slave with fd := fd, status := .HANDSHAKE })
      else
        let (out', h) := dispatchQueue data (h.setSlave id { slave with fd := fd, status := .HEADER }) id
        (out ++ out', h)

/-- A message for `mainloop`: data from a socket, a command, or a message for a name or a handle.  A socket
that is closed is only reported. -/
inductive Message (β : Type) where
  | data (fd : ℕ) (buffer : List UInt8)
  | closed (fd : ℕ)
  | N (name : Name) (source : ℕ)
  | SA (connects : Bool) (fd id : ℕ)
  | toName (source : ℕ) (name : Name) (type : UInt8) (session : Session) (buffer : β)
  | toHandle (source destination : ℕ) (type : UInt8) (session : Session) (buffer : β)

/-- The text of the report that a harbor is down. -/
def downText (id : ℕ) : List UInt8 :=
  ("D " ++ toString id).toList.map fun c => UInt8.ofNat c.toNat

/-- `mainloop` -/
def mainloop (h : Harbor β) : Message β → List (Output β) × Harbor β
  | .data fd buffer => pushSocketData data found h fd buffer
  | .closed fd =>
      match h.slaveOf fd with
      | some id => ([.send ⟨0, h.slave, PTYPE_TEXT, 0, downText id⟩], h)
      | none => ([], h)
  | .N name source => commandN data h name source
  | .SA connects fd id => commandSA data h connects fd id
  | .toName source name type session buffer => remoteSendName data h source name type session buffer
  | .toHandle source destination type session buffer =>
      remoteSendHandle data h source destination type session buffer

end Harbor

end Skynet
