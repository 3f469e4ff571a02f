import FWServer.Skynet.SocketServer

/-!
# The slots of a socket server

The functions of `skynet-src/socket_server.c` that give the slots to sockets: `reserve_id` draws values from
`alloc_id` until it meets a slot that is not in use, `new_fd` makes a socket in a slot that has been reserved, and
the requests that open a socket call it.  What the operating system answers is given to each function.
-/

namespace Skynet

/-- `struct socket_server`; `alloc_id` is an int, here by its bits. -/
structure SocketServer where
  allocId : ℕ
  slot : ℕ → Socket

/-- `HASH_ID` -/
def hashId (id : ℕ) : ℕ :=
  id % MAX_SOCKET

namespace SocketServer

/-- The slot `i` is changed. -/
def put (ss : SocketServer) (i : ℕ) (s : Socket) : SocketServer :=
  { ss with slot := Function.update ss.slot i s }

@[simp]
theorem slot_put (ss : SocketServer) (i : ℕ) (s : Socket) :
  (ss.put i s).slot i = s
  := Function.update_self _ _ _

theorem slot_mk (allocId : ℕ) (slot : ℕ → Socket) :
  (⟨allocId, slot⟩ : SocketServer).slot = slot
  := rfl

/-! ### Ids -/

/-- `ATOM_INC(&(ss->alloc_id))`, and the sign of a negative value is taken away. -/
def draw (allocId : ℕ) : ℕ :=
  let id := (allocId + 1) % 2 ^ 32
  if 2 ^ 31 ≤ id then id &&& 0x7fffffff else id

/-- What `reserve_id` results in: the server, the id if there is one, and how many values have been drawn. -/
structure Reserved where
  server : SocketServer
  id : Option ℕ
  draws : ℕ

/-- The loop of `reserve_id`, `i` times at most. -/
def reserve (ss : SocketServer) : ℕ → Reserved
  | 0 => ⟨ss, none, 0⟩
  | i + 1 =>
      let id := draw ss.allocId
      let ss := { ss with allocId := id }
      let s := ss.slot (hashId id)
      if s.type = .invalid then
        ⟨ss.put (hashId id) { s with type := .reserve, id := id, fd := -1 }, some id, 1⟩
      else
        let x := ss.reserve i
        { x with draws := x.draws + 1 }

/-- `reserve_id` -/
def reserveId (ss : SocketServer) : Reserved :=
  ss.reserve MAX_SOCKET

/-- `new_fd`: the server, and whether there is a socket; `added` is what `sp_add` says if it is asked. -/
def newFd (ss : SocketServer) (id : ℕ) (fd : ℤ) (protocol : Protocol) (opaqueId : ℕ) (add added : Bool) :
    Except Fault (SocketServer × Bool) :=
  let s := ss.slot (hashId id)
  if s.type ≠ .reserve then .error .assertion
  else if add ∧ ¬ added then .ok (ss.put (hashId id) { s with type := .invalid }, false)
  else if s.sendBufferEmpty then
    .ok (ss.put (hashId id) { s with
      id := id
      fd := fd
      protocol := protocol
      size := MIN_READ_BUFFER
      opaqueId := opaqueId
      wbSize := 0
      warnSize := 0 }, true)
  else .error .assertion

/-- `ss->slot[HASH_ID(id)].type = …` -/
def setType (ss : SocketServer) (id : ℕ) (type : SocketType) : SocketServer :=
  ss.put (hashId id) { ss.slot (hashId id) with type := type }

/-! ### Requests that open a socket -/

/-- `open_socket`.  The attempts to connect end with a file descriptor, and the name of the peer when it is connected
already, or with the text of an error. -/
def openSocket (ss : SocketServer) (id opaqueId : ℕ) (attempt : Except String (ℤ × Option (Option String)))
    (added : Bool) : Except Fault (SocketServer × Reply) :=
  match attempt with
  | .error text => .ok (ss.setType id .invalid, .err ⟨id, opaqueId, 0, some text⟩)
  | .ok (fd, connected) =>
      match ss.newFd id fd .tcp opaqueId true added with
      | .error e => .error e
      | .ok (ss, false) =>
          .ok (ss.setType id .invalid, .err ⟨id, opaqueId, 0, some "reach skynet socket number limit"⟩)
      | .ok (ss, true) =>
          match connected with
          | some peer => .ok (ss.setType id .connected, .opened ⟨id, opaqueId, 0, peer⟩)
          | none => .ok (ss.setType id .connecting, .none)

/-- `listen_socket` -/
def listenSocket (ss : SocketServer) (id opaqueId : ℕ) (fd : ℤ) : Except Fault (SocketServer × Reply) :=
  match ss.newFd id fd .tcp opaqueId false true with
  | .error e => .error e
  | .ok (ss, false) =>
      .ok (ss.setType id .invalid, .err ⟨id, opaqueId, 0, some "reach skynet socket number limit"⟩)
  | .ok (ss, true) => .ok (ss.setType id .plisten, .none)

/-- `bind_socket` -/
def bindSocket (ss : SocketServer) (id opaqueId : ℕ) (fd : ℤ) (added : Bool) : Except Fault (SocketServer × Reply) :=
  match ss.newFd id fd .tcp opaqueId true added with
  | .error e => .error e
  | .ok (ss, false) => .ok (ss, .err ⟨id, opaqueId, 0, some "reach skynet socket number limit"⟩)
  | .ok (ss, true) => .ok (ss.setType id .bind, .opened ⟨id, opaqueId, 0, some "binding"⟩)

/-- `add_udp_socket` -/
def addUdpSocket (ss : SocketServer) (id opaqueId : ℕ) (fd : ℤ) (inet6 added : Bool) :
    Except Fault (SocketServer × Reply) :=
  match ss.newFd id fd (if inet6 then .udpv6 else .udp) opaqueId true added with
  | .error e => .error e
  | .ok (ss, false) => .ok (ss.setType id .invalid, .none)
  | .ok (ss, true) => .ok (ss.setType id .connected, .none)

/-- `report_accept`, on the slot `i`, when `accept` has returned a file descriptor: the values drawn, and the id of the
new socket if there is one. -/
def reportAccept (ss : SocketServer) (i : ℕ) (fd : ℤ) (peer : Option String) :
    Except Fault (Reserved × Reply) :=
  let s := ss.slot i
  let x := ss.reserveId
  match x.id with
  | none => .ok (x, .none)
  | some id =>
      match x.server.newFd id fd .tcp s.opaqueId false true with
      | .error e => .error e
      | .ok (ss, false) => .ok ({ x with server := ss }, .none)
      | .ok (ss, true) =>
          .ok ({ x with server := ss.setType id .paccept }, .accept ⟨s.id, s.opaqueId, id, peer⟩)

end SocketServer

/-! ### The functions keep the id of a slot -/

section Ids

variable {s : Socket} {sent : List UInt8} {rest results : List WriteResult} {reply : Reply} {x : Outcome}

theorem Socket.id_closeWith (hx : s.closeWith sent rest reply = .ok x) :
  x.socket.id = s.id
  := by
  rw [closeWith, forceClose] at hx
  cases htype : s.type with
  | reserve =>
      rw [htype] at hx
      cases hx
  | _ =>
      rw [htype] at hx
      obtain rfl := Except.ok.inj hx
      rfl

theorem Socket.id_sendBufferDone (hx : s.sendBufferDone sent rest = .ok x) :
  x.socket.id = s.id
  := by
  rw [sendBufferDone] at hx
  split at hx
  · cases hx
  · split at hx
    · exact id_closeWith hx
    · split at hx
      · obtain rfl := Except.ok.inj hx
        rfl
      · obtain rfl := Except.ok.inj hx
        rfl

theorem Socket.id_raiseUncomplete {s' : Socket} (hx : s.raiseUncomplete = .ok s') :
  s'.id = s.id
  := by
  rw [raiseUncomplete] at hx
  cases hlow : s.low with
  | nil =>
      rw [hlow] at hx
      cases hx
  | cons tmp low =>
      rw [hlow] at hx
      dsimp only at hx
      split at hx
      · obtain rfl := Except.ok.inj hx
        rfl
      · cases hx

theorem Socket.id_sendBuffer (hx : s.sendBuffer results = .ok x) :
  x.socket.id = s.id
  := by
  rw [sendBuffer] at hx
  split at hx
  · cases hx
  · cases hhigh : sendList s.protocol s.high results with
    | none =>
        rw [hhigh] at hx
        cases hx
    | some high =>
        rw [hhigh] at hx
        dsimp only at hx
        split at hx
        · have hid := id_closeWith hx
          exact hid
        · split at hx
          · split at hx
            · cases hlow : sendList s.protocol s.low high.rest with
              | none =>
                  rw [hlow] at hx
                  cases hx
              | some low =>
                  rw [hlow] at hx
                  dsimp only at hx
                  split at hx
                  · have hid := id_closeWith hx
                    exact hid
                  · split at hx
                    · split at hx
                      · next hraised =>
                          obtain rfl := Except.ok.inj hx
                          have hid := id_raiseUncomplete hraised
                          exact hid
                      · cases hx
                    · have hid := id_sendBufferDone hx
                      exact hid
            · have hid := id_sendBufferDone hx
              exact hid
          · obtain rfl := Except.ok.inj hx
            rfl

theorem Socket.id_append (request : RequestSend) (priority : Priority) (n : ℕ) :
  (s.append request priority n).id = s.id
  := by
  cases priority with
  | high => rfl
  | low => rfl

theorem Socket.id_appended :
  (s.appended sent rest).socket.id = s.id
  := by
  rw [appended]
  split
  · rfl
  · rfl

theorem Socket.id_sendDirect {request : RequestSend} {priority : Priority}
    (hx : s.sendDirect request priority results = .ok x) :
  x.socket.id = s.id
  := by
  have hqueued : ∀ {priority n} {written : List UInt8} {rest : List WriteResult},
      Except.ok ((s.append request priority n).appended written rest) = Except.ok (ε := Fault) x →
      x.socket.id = s.id := by
    intro priority n written rest hx
    obtain rfl := Except.ok.inj hx
    rw [id_appended, id_append]
  have hcounted : ∀ (n : ℕ) (rest : List WriteResult),
      (if n > request.bytes.length then Except.error Fault.unfit
        else if n = request.bytes.length then .ok ⟨s, request.bytes, false, true, rest, .none⟩
        else .ok ((s.append request .high n).appended (request.bytes.take n) rest)) = Except.ok x →
      x.socket.id = s.id := by
    intro n rest hx
    split at hx
    · cases hx
    · split at hx
      · obtain rfl := Except.ok.inj hx
        rfl
      · exact hqueued hx
  have hdatagram : ∀ (n : ℕ) (rest : List WriteResult),
      (if n = request.bytes.length then Except.ok ⟨s, request.bytes, false, true, rest, .none⟩
        else .ok ((s.append request priority 0).appended [] rest)) = Except.ok (ε := Fault) x →
      x.socket.id = s.id := by
    intro n rest hx
    split at hx
    · obtain rfl := Except.ok.inj hx
      rfl
    · exact hqueued hx
  cases results with
  | nil => cases hx
  | cons result rest =>
      cases hprotocol : s.protocol with
      | tcp =>
          cases result with
          | error text =>
              simp only [sendDirect, hprotocol] at hx
              exact id_closeWith hx
          | count n =>
              simp only [sendDirect, hprotocol] at hx
              exact hcounted n rest hx
          | intr =>
              simp only [sendDirect, hprotocol] at hx
              exact hcounted 0 rest hx
          | again =>
              simp only [sendDirect, hprotocol] at hx
              exact hcounted 0 rest hx
      | udp =>
          cases result with
          | count n =>
              simp only [sendDirect, hprotocol] at hx
              exact hdatagram n rest hx
          | _ =>
              simp only [sendDirect, hprotocol] at hx
              exact hqueued hx
      | udpv6 =>
          cases result with
          | count n =>
              simp only [sendDirect, hprotocol] at hx
              exact hdatagram n rest hx
          | _ =>
              simp only [sendDirect, hprotocol] at hx
              exact hqueued hx

theorem Socket.id_sendSocket {request : RequestSend} {priority : Priority}
    (hx : s.sendSocket request priority results = .ok x) :
  x.socket.id = s.id
  := by
  rw [sendSocket] at hx
  split at hx
  · obtain rfl := Except.ok.inj hx
    rfl
  · split at hx
    · obtain rfl := Except.ok.inj hx
      rfl
    · split at hx
      · exact id_sendDirect hx
      · obtain rfl := Except.ok.inj hx
        rw [id_appended, id_append]

theorem Socket.id_closeSocket {id opaqueId : ℕ} {shutdown : Bool}
    (hx : s.closeSocket id shutdown opaqueId results = .ok x) :
  x.socket.id = s.id
  := by
  have hfinish : ∀ {t : Socket} {written : List UInt8} {rest : List WriteResult} {reply : Reply}, t.id = s.id →
      (if shutdown = true ∨ t.sendBufferEmpty = true then t.closeWith written rest reply
        else .ok ⟨{ t with type := .halfclose }, written, false, false, rest, .none⟩) = .ok x →
      x.socket.id = s.id := by
    intro t written rest reply ht hx
    split at hx
    · exact (id_closeWith hx).trans ht
    · obtain rfl := Except.ok.inj hx
      exact ht
  rw [closeSocket] at hx
  dsimp only at hx
  split at hx
  · obtain rfl := Except.ok.inj hx
    rfl
  · split at hx
    · cases hy : s.sendBuffer results with
      | error e =>
          rw [hy] at hx
          cases hx
      | ok y =>
          rw [hy] at hx
          dsimp only at hx
          have hid := id_sendBuffer hy
          split at hx
          · exact hfinish hid hx
          · exact hfinish hid hx
          · obtain rfl := Except.ok.inj hx
            exact hid
    · exact hfinish rfl hx

theorem Socket.id_startSocket {id opaqueId : ℕ} {failure : Option String}
    (hx : s.startSocket id opaqueId failure = .ok x) :
  x.socket.id = s.id
  := by
  unfold startSocket at hx
  split at hx
  · obtain rfl := Except.ok.inj hx
    rfl
  · split at hx
    · split at hx
      · exact id_closeWith hx
      · obtain rfl := Except.ok.inj hx
        rfl
    · split at hx
      · obtain rfl := Except.ok.inj hx
        rfl
      · obtain rfl := Except.ok.inj hx
        rfl

theorem Socket.id_forwardMessageTcp {result : ReadResult} (hx : s.forwardMessageTcp result = .ok x) :
  x.socket.id = s.id
  := by
  unfold forwardMessageTcp at hx
  split at hx
  · obtain rfl := Except.ok.inj hx
    rfl
  · exact id_closeWith hx
  · split at hx
    · cases hx
    · split at hx
      · exact id_closeWith hx
      · split at hx
        · obtain rfl := Except.ok.inj hx
          rfl
        · obtain rfl := Except.ok.inj hx
          rfl

theorem Socket.id_reportConnect {failure peer : Option String} (hx : s.reportConnect failure peer = .ok x) :
  x.socket.id = s.id
  := by
  unfold reportConnect at hx
  split at hx
  · exact id_closeWith hx
  · obtain rfl := Except.ok.inj hx
    rfl

end Ids

/-! ### Opening -/

/-- What opening the socket of an id does to the slots: the slot of the id is not in use afterwards, or it has the
id. -/
def Opened (ss : SocketServer) (id : ℕ) (ss' : SocketServer) : Prop :=
  ∃ s, ss' = ss.put (hashId id) s ∧ (s.type = .invalid ∨ s.id = id)

namespace SocketServer

variable {ss ss' : SocketServer} {id opaqueId : ℕ} {fd : ℤ} {added : Bool} {reply : Reply}

theorem put_put (ss : SocketServer) (i : ℕ) (s s' : Socket) :
  (ss.put i s).put i s' = ss.put i s'
  := by rw [put, put, put, Function.update_idem]

theorem setType_put (ss : SocketServer) (id : ℕ) (s : Socket) (type : SocketType) :
  (ss.put (hashId id) s).setType id type = ss.put (hashId id) { s with type := type }
  := by
  rw [setType, put_put, slot_put]

/-- `new_fd` changes the slot of the id only; if it makes a socket, the socket has the id. -/
theorem newFd_eq_ok {protocol : Protocol} {add made : Bool}
    (h : ss.newFd id fd protocol opaqueId add added = .ok (ss', made)) :
  ∃ s, ss' = ss.put (hashId id) s ∧ (if made then s.id = id else s.type = .invalid)
  := by
  rw [newFd] at h
  split at h
  · cases h
  · split at h
    · obtain ⟨rfl, rfl⟩ := Prod.mk.inj (Except.ok.inj h)
      exact ⟨_, rfl, rfl⟩
    · split at h
      · obtain ⟨rfl, rfl⟩ := Prod.mk.inj (Except.ok.inj h)
        exact ⟨_, rfl, rfl⟩
      · cases h

/-- Only the event poll can refuse a socket. -/
theorem made_newFd {protocol : Protocol} {made : Bool}
    (h : ss.newFd id fd protocol opaqueId false added = .ok (ss', made)) :
  made = true
  := by
  rw [newFd] at h
  split at h
  · cases h
  · rw [if_neg nofun] at h
    split at h
    · exact (Prod.mk.inj (Except.ok.inj h)).2.symm
    · cases h

/-- The request fails. -/
theorem opened_failed (ss : SocketServer) (id : ℕ) :
  Opened ss id (ss.setType id .invalid)
  := ⟨_, rfl, .inl rfl⟩

theorem opened_failed_newFd {protocol : Protocol} {add : Bool}
    (h : ss.newFd id fd protocol opaqueId add added = .ok (ss', false)) :
  Opened ss id ss' ∧ Opened ss id (ss'.setType id .invalid)
  := by
  obtain ⟨s, rfl, htype⟩ := newFd_eq_ok h
  refine ⟨⟨s, rfl, .inl htype⟩, ?_⟩
  rw [setType_put]
  exact ⟨_, rfl, .inl rfl⟩

theorem opened_newFd {protocol : Protocol} {add : Bool}
    (h : ss.newFd id fd protocol opaqueId add added = .ok (ss', true)) (type : SocketType) :
  Opened ss id (ss'.setType id type)
  := by
  obtain ⟨s, rfl, hid⟩ := newFd_eq_ok h
  rw [setType_put]
  exact ⟨_, rfl, .inr hid⟩

theorem opened_openSocket {attempt : Except String (ℤ × Option (Option String))}
    (h : ss.openSocket id opaqueId attempt added = .ok (ss', reply)) :
  Opened ss id ss'
  := by
  cases attempt with
  | error text =>
      obtain ⟨rfl, -⟩ := Prod.mk.inj (Except.ok.inj h)
      exact opened_failed ss id
  | ok attempt =>
      rw [openSocket] at h
      split at h
      · cases h
      · next hnew =>
          obtain ⟨rfl, -⟩ := Prod.mk.inj (Except.ok.inj h)
          exact (opened_failed_newFd hnew).2
      · next hnew =>
          split at h
          · obtain ⟨rfl, -⟩ := Prod.mk.inj (Except.ok.inj h)
            exact opened_newFd hnew _
          · obtain ⟨rfl, -⟩ := Prod.mk.inj (Except.ok.inj h)
            exact opened_newFd hnew _

theorem opened_listenSocket (h : ss.listenSocket id opaqueId fd = .ok (ss', reply)) :
  Opened ss id ss'
  := by
  rw [listenSocket] at h
  split at h
  · cases h
  · next hnew =>
      obtain ⟨rfl, -⟩ := Prod.mk.inj (Except.ok.inj h)
      exact (opened_failed_newFd hnew).2
  · next hnew =>
      obtain ⟨rfl, -⟩ := Prod.mk.inj (Except.ok.inj h)
      exact opened_newFd hnew _

theorem opened_bindSocket (h : ss.bindSocket id opaqueId fd added = .ok (ss', reply)) :
  Opened ss id ss'
  := by
  rw [bindSocket] at h
  split at h
  · cases h
  · next hnew =>
      obtain ⟨rfl, -⟩ := Prod.mk.inj (Except.ok.inj h)
      exact (opened_failed_newFd hnew).1
  · next hnew =>
      obtain ⟨rfl, -⟩ := Prod.mk.inj (Except.ok.inj h)
      exact opened_newFd hnew _

theorem opened_addUdpSocket {inet6 : Bool} (h : ss.addUdpSocket id opaqueId fd inet6 added = .ok (ss', reply)) :
  Opened ss id ss'
  := by
  rw [addUdpSocket] at h
  split at h
  · cases h
  · next hnew =>
      obtain ⟨rfl, -⟩ := Prod.mk.inj (Except.ok.inj h)
      exact (opened_failed_newFd hnew).2
  · next hnew =>
      obtain ⟨rfl, -⟩ := Prod.mk.inj (Except.ok.inj h)
      exact opened_newFd hnew _

end SocketServer

/-! ### Reserving an id -/

namespace SocketServer

variable {ss : SocketServer}

theorem draw_eq {allocId : ℕ} (h : allocId < 2 ^ 31) :
  draw allocId = (allocId + 1) % 2 ^ 31
  := by
  have hsmall : (allocId + 1) % 2 ^ 32 = allocId + 1 := Nat.mod_eq_of_lt (by omega)
  rw [draw, hsmall]
  split
  · next hnegative =>
      have hwrap : allocId + 1 = 2 ^ 31 := by omega
      rw [hwrap]
      rfl
  · next hpositive =>
      rw [Nat.mod_eq_of_lt (by omega)]

/-- The slots met one after the other, also when `alloc_id` starts again. -/
theorem hashId_mod (n : ℕ) :
  hashId (n % 2 ^ 31) = n % MAX_SOCKET
  := Nat.mod_mod_of_dvd n (by decide)

/-- The loop takes the first slot it meets that is not in use, if there is one. -/
theorem reserve_spec (n : ℕ) (halloc : ss.allocId < 2 ^ 31) :
  (∃ j, j < n ∧ (ss.slot ((ss.allocId + 1 + j) % MAX_SOCKET)).type = .invalid ∧
    (∀ k, k < j → (ss.slot ((ss.allocId + 1 + k) % MAX_SOCKET)).type ≠ .invalid) ∧
    ss.reserve n =
      let id := (ss.allocId + 1 + j) % 2 ^ 31
      ⟨{ ss with allocId := id }.put (hashId id) { ss.slot (hashId id) with type := .reserve, id := id, fd := -1 },
        some id, j + 1⟩) ∨
  ((∀ k, k < n → (ss.slot ((ss.allocId + 1 + k) % MAX_SOCKET)).type ≠ .invalid) ∧
    ss.reserve n = ⟨{ ss with allocId := (ss.allocId + n) % 2 ^ 31 }, none, n⟩)
  := by
  induction n generalizing ss with
  | zero =>
      right
      refine ⟨nofun, ?_⟩
      rw [reserve, Nat.add_zero, Nat.mod_eq_of_lt halloc]
  | succ n ih =>
      have hdraw := draw_eq halloc
      have hslot : hashId (draw ss.allocId) = (ss.allocId + 1) % MAX_SOCKET := by
        rw [hdraw, hashId_mod]
      by_cases hfree : (ss.slot (hashId (draw ss.allocId))).type = .invalid
      · left
        refine ⟨0, Nat.succ_pos n, ?_, nofun, ?_⟩
        · rw [Nat.add_zero, ← hslot]
          exact hfree
        · rw [reserve]
          dsimp only
          rw [if_pos hfree, hdraw, Nat.add_zero]
      · have hnext : ({ ss with allocId := draw ss.allocId } : SocketServer).allocId < 2 ^ 31 := by
          dsimp only
          rw [hdraw]
          exact Nat.mod_lt _ (by decide)
        have hmod : ∀ k, (draw ss.allocId + 1 + k) % 2 ^ 31 = (ss.allocId + 1 + (k + 1)) % 2 ^ 31 := by
          intro k
          rw [hdraw]
          omega
        have hsame : ∀ k, (draw ss.allocId + 1 + k) % MAX_SOCKET = (ss.allocId + 1 + (k + 1)) % MAX_SOCKET := by
          intro k
          rw [← hashId_mod, hmod, hashId_mod]
        have hloop : ss.reserve (n + 1) =
            let x := { ss with allocId := draw ss.allocId }.reserve n
            { x with draws := x.draws + 1 } := by
          rw [reserve]
          dsimp only
          rw [if_neg hfree]
        rcases ih hnext with ⟨j, hj, htype, hbefore, hresult⟩ | ⟨hall, hresult⟩
        · left
          dsimp only at htype hbefore hresult
          refine ⟨j + 1, by omega, hsame j ▸ htype, ?_, ?_⟩
          · intro k hk
            cases k with
            | zero =>
                rw [Nat.add_zero, ← hslot]
                exact hfree
            | succ k =>
                rw [← hsame k]
                exact hbefore k (by omega)
          · rw [hloop, hresult, hmod]
        · right
          dsimp only at hall hresult
          refine ⟨?_, ?_⟩
          · intro k hk
            cases k with
            | zero =>
                rw [Nat.add_zero, ← hslot]
                exact hfree
            | succ k =>
                rw [← hsame k]
                exact hall k (by omega)
          · have hend : (draw ss.allocId + n) % 2 ^ 31 = (ss.allocId + (n + 1)) % 2 ^ 31 := by
              rw [hdraw]
              omega
            rw [hloop, hresult, hend]

/-- `reserve_id` meets every slot. -/
theorem exists_met (allocId : ℕ) {i : ℕ} (hi : i < MAX_SOCKET) :
  ∃ k, k < MAX_SOCKET ∧ (allocId + 1 + k) % MAX_SOCKET = i
  := by
  rw [MAX_SOCKET] at hi ⊢
  exact ⟨(i + 2 ^ 16 - (allocId + 1) % 2 ^ 16) % 2 ^ 16, by omega, by omega⟩

/-- `reserve_id` takes a slot that is not in use, whenever there is one. -/
theorem reserveId_isSome_iff (halloc : ss.allocId < 2 ^ 31) :
  ss.reserveId.id.isSome = true ↔ ∃ i, i < MAX_SOCKET ∧ (ss.slot i).type = .invalid
  := by
  rw [reserveId]
  rcases reserve_spec MAX_SOCKET halloc with ⟨j, -, htype, -, hresult⟩ | ⟨hall, hresult⟩
  · rw [hresult]
    exact iff_of_true rfl ⟨_, Nat.mod_lt _ (by decide), htype⟩
  · rw [hresult]
    refine iff_of_false (by rintro ⟨⟩) ?_
    rintro ⟨i, hi, htype⟩
    obtain ⟨k, hk, rfl⟩ := exists_met ss.allocId hi
    exact hall k hk htype

end SocketServer

end Skynet
