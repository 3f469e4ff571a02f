import FWServer.Kernel.Machine
import FWServer.Skynet.SocketSlots

/-!
# The ids of sockets

Workers reserve ids and write the requests that open them to a pipe; the thread of the socket server handles these
later, and requests that name ids at any time, also ids of sockets that have been closed.  Each function is one
step, with anything in between, and what the operating system answers is left to the environment.

Beside the slots there is a log: the ids whose opening is still to come, how many ids have been given and how many
values have been drawn for them, and the ids of the sockets that have been closed.
-/

namespace Skynet

/-- A request that opens the socket of an id. -/
inductive OpenRequest where
  | connect (opaqueId : ℕ) (attempt : Except String (ℤ × Option (Option String))) (added : Bool)
  | listen (opaqueId : ℕ) (fd : ℤ)
  | bind (opaqueId : ℕ) (fd : ℤ) (added : Bool)
  | udp (opaqueId : ℕ) (fd : ℤ) (inet6 added : Bool)

/-- The part of `ctrl_cmd` for such requests. -/
def SocketServer.openRequest (ss : SocketServer) (id : ℕ) : OpenRequest → Except Fault (SocketServer × Reply)
  | .connect opaqueId attempt added => ss.openSocket id opaqueId attempt added
  | .listen opaqueId fd => ss.listenSocket id opaqueId fd
  | .bind opaqueId fd added => ss.bindSocket id opaqueId fd added
  | .udp opaqueId fd inet6 added => ss.addUdpSocket id opaqueId fd inet6 added

theorem SocketServer.opened_openRequest {ss ss' : SocketServer} {id : ℕ} {request : OpenRequest} {reply : Reply}
    (h : ss.openRequest id request = .ok (ss', reply)) :
  Opened ss id ss'
  := by
  cases request with
  | connect opaqueId attempt added => exact opened_openSocket h
  | listen opaqueId fd => exact opened_listenSocket h
  | bind opaqueId fd added => exact opened_bindSocket h
  | udp opaqueId fd inet6 added => exact opened_addUdpSocket h

/-- The server and the log. -/
structure Sockets where
  server : SocketServer
  pending : List ℕ
  given : ℕ
  draws : ℕ
  closed : List ℕ
  aborted : Bool

namespace Sockets

/-- What happens: an id is reserved, or its opening is handled; a connection is accepted on a slot that listens; a
request names an id; or there is an event for a slot. -/
inductive Step where
  | reserve
  | opening (id : ℕ) (request : OpenRequest)
  | accept (i : ℕ) (fd : ℤ) (peer : Option String)
  | send (request : RequestSend) (priority : Priority) (results : List WriteResult)
  | close (id : ℕ) (shutdown : Bool) (opaqueId : ℕ) (results : List WriteResult)
  | start (id opaqueId : ℕ) (failure : Option String)
  | connected (i : ℕ) (failure peer : Option String)
  | readable (i : ℕ) (result : ReadResult)
  | writable (i : ℕ) (results : List WriteResult)
  | dropped (i : ℕ) (reply : Reply)

/-- The id that a request names. -/
def Step.names : Step → Option ℕ
  | .send request _ _ => some request.id
  | .close id _ _ _ => some id
  | .start id _ _ => some id
  | _ => none

variable (n : Sockets)

/-- The slot `i` is in use. -/
def Used (i : ℕ) : Prop :=
  (n.server.slot i).type ≠ .invalid

instance (i : ℕ) : Decidable (n.Used i) :=
  inferInstanceAs (Decidable (_ ≠ _))

/-- Ids have been drawn, and one of them has been given, or none. -/
def drawn (x : SocketServer.Reserved) : Sockets :=
  { n with server := x.server, given := n.given + x.id.toList.length, draws := n.draws + x.draws }

/-- What a function has done on the slot `i`.  If the slot is given up, the socket whose opening has been handled is
closed. -/
def finish (i : ℕ) : Except Fault Outcome → Option Sockets
  | .error .assertion => some { n with aborted := true }
  | .error .unfit => none
  | .ok x =>
      let s := n.server.slot i
      some { n with
        server := n.server.put i x.socket
        closed :=
          if n.Used i ∧ x.socket.type = .invalid ∧ s.id ∉ n.pending then s.id :: n.closed else n.closed }

/-- The functions of the workers, `ctrl_cmd`, and `socket_server_poll`. -/
def step : Step → Option Sockets
  | .reserve =>
      if n.aborted then none
      else
        let x := n.server.reserveId
        some { n.drawn x with pending := x.id.toList ++ n.pending }
  | .opening id request =>
      if n.aborted ∨ id ∉ n.pending then none
      else
        match n.server.openRequest id request with
        | .error .assertion => some { n with aborted := true }
        | .error .unfit => none
        | .ok (server, _) =>
            some { n with
              server := server
              pending := n.pending.erase id
              closed := if (server.slot (hashId id)).type = .invalid then id :: n.closed else n.closed }
  | .accept i fd peer =>
      if n.aborted ∨ (n.server.slot i).type ≠ .listen then none
      else
        match n.server.reportAccept i fd peer with
        | .error .assertion => some { n with aborted := true }
        | .error .unfit => none
        | .ok (x, _) => some (n.drawn x)
  | .send request priority results =>
      if n.aborted then none
      else n.finish (hashId request.id) ((n.server.slot (hashId request.id)).sendSocket request priority results)
  | .close id shutdown opaqueId results =>
      if n.aborted then none
      else n.finish (hashId id) ((n.server.slot (hashId id)).closeSocket id shutdown opaqueId results)
  | .start id opaqueId failure =>
      if n.aborted then none
      else n.finish (hashId id) ((n.server.slot (hashId id)).startSocket id opaqueId failure)
  | .connected i failure peer =>
      if n.aborted ∨ (n.server.slot i).type ≠ .connecting then none
      else n.finish i ((n.server.slot i).reportConnect failure peer)
  | .readable i result =>
      if n.aborted ∨ ¬ n.Used i then none
      else n.finish i ((n.server.slot i).forwardMessageTcp result)
  | .writable i results =>
      if n.aborted ∨ ¬ n.Used i then none
      else n.finish i ((n.server.slot i).sendBuffer results)
  | .dropped i reply =>
      if n.aborted ∨ ¬ n.Used i then none
      else n.finish i ((n.server.slot i).closeWith [] [] reply)

/-- A server that has been made: no slot is in use, and no id has been drawn. -/
structure Created : Prop where
  allocId : n.server.allocId = 0
  type : ∀ i, (n.server.slot i).type = .invalid
  pending : n.pending = []
  draws : n.draws = 0
  closed : n.closed = []

/-- All runs. -/
def machine : Machine Sockets Step where
  init := Created
  step := step

/-! ### What is to hold -/

/-- Slots in use have different ids, and each is the slot of its id; an id can be reserved precisely when there is a
slot that is not in use. -/
structure Sound : Prop where
  distinct : ∀ i j, n.Used i → n.Used j → (n.server.slot i).id = (n.server.slot j).id → i = j
  slot : ∀ i, n.Used i → hashId (n.server.slot i).id = i
  reserve : n.server.reserveId.id.isSome = true ↔ ∃ i, i < MAX_SOCKET ∧ ¬ n.Used i

/-- While no value has been drawn twice, the ids of the sockets that have been closed are not used any more. -/
structure Fresh : Prop where
  used : ∀ i, n.Used i → (n.server.slot i).id ≤ n.draws
  pending : ∀ id ∈ n.pending, id ≤ n.draws
  nodup : n.pending.Nodup
  closed : ∀ id ∈ n.closed, id ≤ n.draws ∧ id ∉ n.pending ∧ ∀ i, n.Used i → (n.server.slot i).id ≠ id

structure Good : Prop where
  alloc : n.server.allocId = n.draws % 2 ^ 31
  slot : ∀ i, n.Used i → hashId (n.server.slot i).id = i
  fresh : n.draws < 2 ^ 31 → n.Fresh

section Good

variable {n} {n' : Sockets}

theorem Good.distinct (h : Good n) {i j : ℕ} (hi : n.Used i) (hj : n.Used j)
    (hid : (n.server.slot i).id = (n.server.slot j).id) :
  i = j
  := by rw [← h.slot i hi, ← h.slot j hj, hid]

theorem Good.sound (h : Good n) :
  Sound n
  := by
  constructor
  · exact fun i j hi hj hid => h.distinct hi hj hid
  · exact h.slot
  · have halloc : n.server.allocId < 2 ^ 31 := by
      rw [h.alloc]
      exact Nat.mod_lt _ (by decide)
    rw [SocketServer.reserveId_isSome_iff halloc]
    simp only [Used, not_not]

theorem Created.good (h : Created n) :
  Good n
  := by
  have hunused : ∀ i, ¬ n.Used i := fun i hi => hi (h.type i)
  constructor
  · exact h.allocId.trans (congrArg (· % 2 ^ 31) h.draws).symm
  · exact fun i hi => absurd hi (hunused i)
  · intro _
    constructor
    · exact fun i hi => absurd hi (hunused i)
    · rw [h.pending]
      exact nofun
    · rw [h.pending]
      exact List.nodup_nil
    · rw [h.closed]
      exact nofun

/-- What a change of the slot `i` has to respect while no value has been drawn twice. -/
structure Respects (n : Sockets) (i : ℕ) (s : Socket) (n' : Sockets) : Prop where
  used : s.type ≠ .invalid → s.id ≤ n'.draws
  pending : ∀ id ∈ n'.pending, id ≤ n'.draws
  nodup : n'.pending.Nodup
  closed : ∀ id ∈ n'.closed, id ≤ n'.draws ∧ id ∉ n'.pending ∧ (s.type ≠ .invalid → s.id ≠ id) ∧
    ∀ j, j ≠ i → n.Used j → (n.server.slot j).id ≠ id

/-- A slot is changed. -/
theorem Good.put (h : Good n) {i : ℕ} {s : Socket} (hserver : n'.server.slot = Function.update n.server.slot i s)
    (halloc : n'.server.allocId = n'.draws % 2 ^ 31) (hdraws : n.draws ≤ n'.draws)
    (hslot : s.type ≠ .invalid → hashId s.id = i)
    (hrespects : n'.draws < 2 ^ 31 → Fresh n → Respects n i s n') :
  Good n'
  := by
  have hsame : ∀ j, j ≠ i → n'.server.slot j = n.server.slot j := by
    intro j hj
    rw [hserver, Function.update_of_ne hj]
  have hi : n'.server.slot i = s := by
    rw [hserver, Function.update_self]
  constructor
  · exact halloc
  · intro j hj
    rcases eq_or_ne j i with rfl | hne
    · rw [Used, hi] at hj
      rw [hi]
      exact hslot hj
    · rw [Used, hsame j hne] at hj
      rw [hsame j hne]
      exact h.slot j hj
  · intro hsmall
    have hfresh := h.fresh (Nat.lt_of_le_of_lt hdraws hsmall)
    have hnew := hrespects hsmall hfresh
    constructor
    · intro j hj
      rcases eq_or_ne j i with rfl | hne
      · rw [Used, hi] at hj
        rw [hi]
        exact hnew.used hj
      · rw [Used, hsame j hne] at hj
        rw [hsame j hne]
        exact Nat.le_trans (hfresh.used j hj) hdraws
    · exact hnew.pending
    · exact hnew.nodup
    · intro id hid
      obtain ⟨hle, hpending, hself, hothers⟩ := hnew.closed id hid
      refine ⟨hle, hpending, fun j hj => ?_⟩
      rcases eq_or_ne j i with rfl | hne
      · rw [Used, hi] at hj
        rw [hi]
        exact hself hj
      · rw [Used, hsame j hne] at hj
        rw [hsame j hne]
        exact hothers j hne hj

/-- A failed assertion ends the run. -/
theorem Good.aborted (h : Good n) :
  Good { n with aborted := true }
  := by
  constructor
  · exact h.alloc
  · exact h.slot
  · intro hsmall
    obtain ⟨hused, hpending, hnodup, hclosed⟩ := h.fresh hsmall
    exact ⟨hused, hpending, hnodup, hclosed⟩

/-- A function keeps the id of a slot.  If the slot is given up, the id is closed, unless its opening is still to
come. -/
theorem Good.finish (h : Good n) {i : ℕ} {result : Except Fault Outcome}
    (hid : ∀ x, result = .ok x → x.socket.id = (n.server.slot i).id)
    (hused : ∀ x, result = .ok x → x.socket.type ≠ .invalid → n.Used i)
    (hstep : n.finish i result = some n') :
  Good n'
  := by
  cases result with
  | error fault =>
      cases fault with
      | unfit => cases hstep
      | assertion =>
          obtain rfl := Option.some.inj hstep
          exact h.aborted
  | ok x =>
      obtain rfl := Option.some.inj hstep
      have hid := hid x rfl
      have hused := hused x rfl
      apply h.put
      · rfl
      · exact h.alloc
      · exact Nat.le_refl _
      · intro htype
        rw [hid]
        exact h.slot i (hused htype)
      · intro hsmall hfresh
        constructor
        · intro htype
          rw [hid]
          exact hfresh.used i (hused htype)
        · exact hfresh.pending
        · exact hfresh.nodup
        · have hold : ∀ id ∈ n.closed, id ≤ n.draws ∧ id ∉ n.pending ∧
              (x.socket.type ≠ .invalid → x.socket.id ≠ id) ∧
              ∀ j, j ≠ i → n.Used j → (n.server.slot j).id ≠ id := by
            intro id hclosed
            obtain ⟨hle, hpending, hunused⟩ := hfresh.closed id hclosed
            refine ⟨hle, hpending, fun htype => ?_, fun j _ => hunused j⟩
            rw [hid]
            exact hunused i (hused htype)
          dsimp only
          split
          · next hclosing =>
              obtain ⟨hi, hinvalid, hpending⟩ := hclosing
              intro id hmem
              rcases List.mem_cons.mp hmem with rfl | hmem
              · refine ⟨hfresh.used i hi, hpending, fun htype => absurd hinvalid htype, ?_⟩
                exact fun j hj hjused hsame => hj (h.distinct hjused hi hsame)
              · exact hold id hmem
          · exact hold

/-- The opening of an id is handled: the slot of the id has the id afterwards, or is not in use, and then the id is
closed. -/
theorem Good.opening (h : Good n) {id : ℕ} {server : SocketServer} (hpending : id ∈ n.pending)
    (hopened : Opened n.server id server) :
  Good { n with
    server := server
    pending := n.pending.erase id
    closed := if (server.slot (hashId id)).type = .invalid then id :: n.closed else n.closed }
  := by
  obtain ⟨s, rfl, hs⟩ := hopened
  apply h.put
  · rfl
  · exact h.alloc
  · exact Nat.le_refl _
  · intro htype
    rw [hs.resolve_left htype]
  · intro hsmall hfresh
    constructor
    · intro htype
      rw [hs.resolve_left htype]
      exact hfresh.pending id hpending
    · exact fun k hk => hfresh.pending k (List.mem_of_mem_erase hk)
    · exact hfresh.nodup.erase id
    · have hold : ∀ k ∈ n.closed, k ≤ n.draws ∧ k ∉ n.pending.erase id ∧
          (s.type ≠ .invalid → s.id ≠ k) ∧ ∀ j, j ≠ hashId id → n.Used j → (n.server.slot j).id ≠ k := by
        intro k hk
        obtain ⟨hle, hnot, hunused⟩ := hfresh.closed k hk
        refine ⟨hle, fun hmem => hnot (List.mem_of_mem_erase hmem), fun htype => ?_, fun j _ => hunused j⟩
        rw [hs.resolve_left htype]
        rintro rfl
        exact hnot hpending
      dsimp only
      rw [SocketServer.slot_put]
      split
      · next hinvalid =>
          intro k hk
          rcases List.mem_cons.mp hk with rfl | hk
          · refine ⟨hfresh.pending k hpending, hfresh.nodup.not_mem_erase, fun htype => absurd hinvalid htype, ?_⟩
            intro j hj hused hsame
            rw [← hsame] at hj
            exact hj (h.slot j hused).symm
          · exact hold k hk
      · exact hold

/-- What `reserve_id` does: it gives the last value drawn and takes the slot of that, or it finds no slot. -/
theorem Good.reserveId (h : Good n) :
  (∃ s, n.server.reserveId.server.slot = Function.update n.server.slot (hashId s.id) s ∧
      s.id = (n.drawn n.server.reserveId).draws % 2 ^ 31 ∧ n.draws < (n.drawn n.server.reserveId).draws ∧
      n.server.reserveId.id = some s.id ∧ n.server.reserveId.server.allocId = s.id) ∨
    (n.server.reserveId.id = none ∧ n.server.reserveId.server.slot = n.server.slot ∧
      n.server.reserveId.server.allocId = (n.drawn n.server.reserveId).draws % 2 ^ 31)
  := by
  have halloc : n.server.allocId < 2 ^ 31 := by
    rw [h.alloc]
    exact Nat.mod_lt _ (by decide)
  have hmod : ∀ k, (n.server.allocId + k) % 2 ^ 31 = (n.draws + k) % 2 ^ 31 := by
    intro k
    rw [h.alloc, Nat.mod_add_mod]
  rw [SocketServer.reserveId]
  rcases SocketServer.reserve_spec MAX_SOCKET halloc with ⟨j, -, -, -, hresult⟩ | ⟨-, hresult⟩
  · left
    have hvalue : (n.server.allocId + 1 + j) % 2 ^ 31 = (n.draws + (j + 1)) % 2 ^ 31 := by
      rw [← hmod, Nat.add_right_comm, Nat.add_assoc]
    rw [hresult, hvalue]
    let id := (n.draws + (j + 1)) % 2 ^ 31
    refine ⟨{ n.server.slot (hashId id) with type := .reserve, id := id, fd := -1 }, rfl, rfl, ?_, rfl, rfl⟩
    exact Nat.lt_add_of_pos_right (Nat.succ_pos j)
  · right
    rw [hresult]
    exact ⟨rfl, SocketServer.slot_mk _ _, hmod _⟩

/-- An id that has been given is a new one, while no value has been drawn twice. -/
theorem Good.given (h : Good n) {id : ℕ} (hid : n.server.reserveId.id = some id)
    (hsmall : (n.drawn n.server.reserveId).draws < 2 ^ 31) :
  n.draws < id ∧ id = (n.drawn n.server.reserveId).draws
  := by
  rcases h.reserveId with ⟨s, -, hvalue, hlt, hsome, -⟩ | ⟨hnone, -⟩
  · rw [hid] at hsome
    obtain rfl := Option.some.inj hsome
    rw [Nat.mod_eq_of_lt hsmall] at hvalue
    exact ⟨hvalue ▸ hlt, hvalue⟩
  · rw [hid] at hnone
    cases hnone

/-- An id is reserved; then its slot may be changed further, as long as it keeps the id. -/
theorem Good.drawn (h : Good n) (pending : List ℕ) (server : SocketServer)
    (hserver : ∀ id, n.server.reserveId.id = some id →
      server.allocId = id ∧ ∃ s, server.slot = Function.update n.server.slot (hashId id) s ∧ s.id = id)
    (hnone : n.server.reserveId.id = none → server = n.server.reserveId.server)
    (hpending : pending = n.pending ∨ pending = n.server.reserveId.id.toList ++ n.pending) :
  Good { n.drawn n.server.reserveId with server := server, pending := pending }
  := by
  have hspec := h.reserveId
  rcases hspec with ⟨s, -, hvalue, hlt, hsome, -⟩ | ⟨hfull, hslot, halloc⟩
  · obtain ⟨halloc, t, ht, hid⟩ := hserver s.id hsome
    apply h.put
    · exact ht
    · rw [halloc]
      exact hvalue
    · exact Nat.le_of_lt hlt
    · intro _
      rw [hid]
    · intro hsmall hfresh
      obtain ⟨hnew, hlast⟩ := h.given hsome hsmall
      have hmem : ∀ k ∈ pending, k = s.id ∨ k ∈ n.pending := by
        intro k hk
        rcases hpending with rfl | rfl
        · exact .inr hk
        · rw [hsome] at hk
          exact List.mem_cons.mp hk
      constructor
      · intro _
        rw [hid]
        exact Nat.le_of_eq hlast
      · intro k hk
        rcases hmem k hk with rfl | hk
        · exact Nat.le_of_eq hlast
        · exact Nat.le_trans (hfresh.pending k hk) (Nat.le_of_lt hlt)
      · rcases hpending with rfl | rfl
        · exact hfresh.nodup
        · rw [hsome]
          refine List.nodup_cons.mpr ⟨fun hk => ?_, hfresh.nodup⟩
          exact absurd (hfresh.pending s.id hk) (Nat.not_le.mpr hnew)
      · intro k hk
        obtain ⟨hle, hnot, hunused⟩ := hfresh.closed k hk
        have hne : s.id ≠ k := by
          rintro rfl
          exact absurd hle (Nat.not_le.mpr hnew)
        refine ⟨Nat.le_trans hle (Nat.le_of_lt hlt), fun hmem' => ?_, fun _ => ?_, fun j _ => hunused j⟩
        · rcases hmem k hmem' with rfl | hmem'
          · exact hne rfl
          · exact hnot hmem'
        · rw [hid]
          exact hne
  · obtain rfl := hnone hfull
    obtain rfl : pending = n.pending := by
      rcases hpending with rfl | rfl
      · rfl
      · rw [hfull]
        rfl
    have hdraws : n.draws ≤ (n.drawn n.server.reserveId).draws := Nat.le_add_right _ _
    apply h.put
    · rw [hslot]
      exact (Function.update_eq_self 0 n.server.slot).symm
    · exact halloc
    · exact hdraws
    · exact h.slot 0
    · intro _ hfresh
      constructor
      · exact fun hused => Nat.le_trans (hfresh.used 0 hused) hdraws
      · exact fun k hk => Nat.le_trans (hfresh.pending k hk) hdraws
      · exact hfresh.nodup
      · intro k hk
        obtain ⟨hle, hnot, hunused⟩ := hfresh.closed k hk
        exact ⟨Nat.le_trans hle hdraws, hnot, hunused 0, fun j _ => hunused j⟩

theorem Good.reserve (h : Good n) (hstep : n.step .reserve = some n') :
  Good n'
  := by
  obtain ⟨-, hstep⟩ := Option.ite_none_left_eq_some.mp hstep
  obtain rfl := Option.some.inj hstep
  apply h.drawn
  · intro id hid
    rcases h.reserveId with ⟨s, hslot, -, -, hsome, halloc⟩ | ⟨hnone, -⟩
    · rw [hid] at hsome
      obtain rfl := Option.some.inj hsome
      exact ⟨halloc, s, hslot, rfl⟩
    · rw [hid] at hnone
      cases hnone
  · exact fun _ => rfl
  · exact .inr rfl

theorem Good.accept (h : Good n) {i : ℕ} {fd : ℤ} {peer : Option String}
    (hstep : n.step (.accept i fd peer) = some n') :
  Good n'
  := by
  obtain ⟨-, hstep⟩ := Option.ite_none_left_eq_some.mp hstep
  rw [SocketServer.reportAccept] at hstep
  cases hid : n.server.reserveId.id with
  | none =>
      rw [hid] at hstep
      obtain rfl := Option.some.inj hstep
      apply h.drawn
      · rw [hid]
        rintro id ⟨⟩
      · exact fun _ => rfl
      · exact .inl rfl
  | some id =>
      rw [hid] at hstep
      dsimp only at hstep
      rcases h.reserveId with ⟨s, hslot, -, -, hsome, halloc⟩ | ⟨hnone, -⟩
      · rw [hid] at hsome
        obtain rfl := Option.some.inj hsome
        cases hnew : n.server.reserveId.server.newFd s.id fd .tcp (n.server.slot i).opaqueId false true with
        | error fault =>
            rw [hnew] at hstep
            cases fault with
            | assertion =>
                obtain rfl := Option.some.inj hstep
                exact h.aborted
            | unfit => cases hstep
        | ok result =>
            obtain ⟨server, made⟩ := result
            rw [hnew] at hstep
            obtain rfl := SocketServer.made_newFd hnew
            obtain rfl := Option.some.inj hstep
            obtain ⟨t, rfl, ht⟩ := SocketServer.newFd_eq_ok hnew
            rw [SocketServer.setType_put]
            have hslot : n.server.reserveId.server.slot = Function.update n.server.slot (hashId s.id) s := hslot
            have hdrawn := h.drawn n.pending
              (n.server.reserveId.server.put (hashId s.id) { t with type := .paccept }) ?_ ?_ (.inl rfl)
            · rw [Sockets.drawn, hid] at hdrawn
              exact hdrawn
            · intro id' hid'
              rw [hid] at hid'
              obtain rfl := Option.some.inj hid'
              refine ⟨halloc, { t with type := .paccept }, ?_, ht⟩
              rw [SocketServer.put, hslot, Function.update_idem]
            · rw [hid]
              rintro ⟨⟩
      · rw [hid] at hnone
        cases hnone

/-- Every step keeps the log in order. -/
theorem Good.step (h : Good n) {l : Step} (hstep : n.step l = some n') :
  Good n'
  := by
  have hstale : ∀ {i id : ℕ}, ¬ n.Used i → (n.server.slot i).type = .invalid ∨ (n.server.slot i).id ≠ id :=
    fun hi => .inl (not_not.mp hi)
  cases l with
  | reserve => exact h.reserve hstep
  | opening id request =>
      obtain ⟨hguard, hstep⟩ := Option.ite_none_left_eq_some.mp hstep
      have hpending := not_not.mp (not_or.mp hguard).2
      cases hresult : n.server.openRequest id request with
      | error fault =>
          rw [hresult] at hstep
          cases fault with
          | assertion =>
              obtain rfl := Option.some.inj hstep
              exact h.aborted
          | unfit => cases hstep
      | ok result =>
          rw [hresult] at hstep
          obtain rfl := Option.some.inj hstep
          exact h.opening hpending (SocketServer.opened_openRequest hresult)
  | accept i fd peer => exact h.accept hstep
  | send request priority results =>
      obtain ⟨-, hstep⟩ := Option.ite_none_left_eq_some.mp hstep
      apply h.finish _ _ hstep
      · exact fun x hx => Socket.id_sendSocket hx
      · intro x hx htype
        by_contra hunused
        rw [Socket.sendSocket_stale (hstale hunused)] at hx
        obtain rfl := Except.ok.inj hx
        exact hunused htype
  | close id shutdown opaqueId results =>
      obtain ⟨-, hstep⟩ := Option.ite_none_left_eq_some.mp hstep
      apply h.finish _ _ hstep
      · exact fun x hx => Socket.id_closeSocket hx
      · intro x hx htype
        by_contra hunused
        rw [Socket.closeSocket_stale (hstale hunused)] at hx
        obtain rfl := Except.ok.inj hx
        exact hunused htype
  | start id opaqueId failure =>
      obtain ⟨-, hstep⟩ := Option.ite_none_left_eq_some.mp hstep
      apply h.finish _ _ hstep
      · exact fun x hx => Socket.id_startSocket hx
      · intro x hx htype
        by_contra hunused
        rw [Socket.startSocket_stale (hstale hunused)] at hx
        obtain rfl := Except.ok.inj hx
        exact hunused htype
  | connected i failure peer =>
      obtain ⟨hguard, hstep⟩ := Option.ite_none_left_eq_some.mp hstep
      have htype := not_not.mp (not_or.mp hguard).2
      apply h.finish _ _ hstep
      · exact fun x hx => Socket.id_reportConnect hx
      · intro _ _ _
        rw [Used, htype]
        exact nofun
  | readable i result =>
      obtain ⟨hguard, hstep⟩ := Option.ite_none_left_eq_some.mp hstep
      apply h.finish _ _ hstep
      · exact fun x hx => Socket.id_forwardMessageTcp hx
      · exact fun _ _ _ => not_not.mp (not_or.mp hguard).2
  | writable i results =>
      obtain ⟨hguard, hstep⟩ := Option.ite_none_left_eq_some.mp hstep
      apply h.finish _ _ hstep
      · exact fun x hx => Socket.id_sendBuffer hx
      · exact fun _ _ _ => not_not.mp (not_or.mp hguard).2
  | dropped i reply =>
      obtain ⟨hguard, hstep⟩ := Option.ite_none_left_eq_some.mp hstep
      apply h.finish _ _ hstep
      · exact fun x hx => Socket.id_closeWith hx
      · exact fun _ _ _ => not_not.mp (not_or.mp hguard).2

/-- A request that names the id of a socket that has been closed does nothing, while no value has been drawn twice. -/
theorem Good.stale (h : Good n) (hsmall : n.draws < 2 ^ 31) {l : Step} {id : ℕ} (hnames : l.names = some id)
    (hclosed : id ∈ n.closed) (hstep : n.step l = some n') :
  n' = n
  := by
  obtain ⟨-, -, hunused⟩ := (h.fresh hsmall).closed id hclosed
  have hstale : (n.server.slot (hashId id)).type = .invalid ∨ (n.server.slot (hashId id)).id ≠ id := by
    by_cases hused : n.Used (hashId id)
    · exact .inr (hunused _ hused)
    · exact .inl (not_not.mp hused)
  have hsame : ∀ results reply n', n.finish (hashId id)
      (.ok ((n.server.slot (hashId id)).unchanged results reply)) = some n' → n' = n := by
    intro results reply n' hfinish
    obtain rfl := Option.some.inj hfinish
    have hslot : n.server.put (hashId id) (n.server.slot (hashId id)) = n.server := by
      rw [SocketServer.put, Function.update_eq_self]
    rw [if_neg fun hgiven => hgiven.1 hgiven.2.1]
    dsimp only [Socket.unchanged]
    rw [hslot]
  cases l with
  | send request priority results =>
      obtain rfl := Option.some.inj hnames
      obtain ⟨-, hstep⟩ := Option.ite_none_left_eq_some.mp hstep
      rw [Socket.sendSocket_stale hstale] at hstep
      exact hsame _ _ _ hstep
  | close id shutdown opaqueId results =>
      obtain rfl := Option.some.inj hnames
      obtain ⟨-, hstep⟩ := Option.ite_none_left_eq_some.mp hstep
      rw [Socket.closeSocket_stale hstale] at hstep
      exact hsame _ _ _ hstep
  | start id opaqueId failure =>
      obtain rfl := Option.some.inj hnames
      obtain ⟨-, hstep⟩ := Option.ite_none_left_eq_some.mp hstep
      rw [Socket.startSocket_stale hstale] at hstep
      exact hsame _ _ _ hstep
  | _ => cases hnames

end Good

theorem good_of_reachable {n : Sockets} (h : machine.Reachable n) :
  Good n
  := by
  refine Machine.invariant ?_ ?_ h
  · exact fun n hn => hn.good
  · exact fun n l n' hn _ hstep => hn.step hstep

/-- In every run slots in use have different ids, each is the slot of its id, and an id can be reserved precisely when
a slot is not in use; and while no value has been drawn twice, a request that names a socket that has been closed
does nothing. -/
theorem ids_never_alias {n : Sockets} (h : machine.Reachable n) :
  Sound n ∧ (n.draws < 2 ^ 31 → ∀ l id n', l.names = some id → id ∈ n.closed → n.step l = some n' → n' = n)
  := by
  have hgood := good_of_reachable h
  exact ⟨hgood.sound, fun hsmall l id n' hnames hclosed hstep => hgood.stale hsmall hnames hclosed hstep⟩

/-- A server that has been made. -/
def created : Sockets where
  server := {
    allocId := 0
    slot := fun _ => ⟨0, [], [], 0, -1, 0, .tcp, .invalid, 0, 0⟩ }
  pending := []
  given := 0
  draws := 0
  closed := []
  aborted := false

theorem created_created :
  Created created
  := ⟨rfl, fun _ => rfl, rfl, rfl, rfl⟩

/-- A socket is closed, and requests to close it and to start it come once more. -/
theorem ids_never_alias_closed :
  ∃ n, machine.exec created [.reserve, .opening 1 (.listen 7 5), .start 1 7 none, .close 1 false 7 [], .reserve,
      .close 1 true 7 [], .start 1 7 none] = some n ∧
    n.closed = [1] ∧ n.draws = 2 ∧ Sound n ∧
    (n.draws < 2 ^ 31 → ∀ l id n', l.names = some id → id ∈ n.closed → n.step l = some n' → n' = n)
  := by
  have hrun : (machine.exec created [.reserve, .opening 1 (.listen 7 5), .start 1 7 none, .close 1 false 7 [], .reserve,
      .close 1 true 7 [], .start 1 7 none]).map (fun n => (n.closed, n.draws)) = some ([1], 2) := by
    decide +kernel
  obtain ⟨n, hn, hvalues⟩ := Option.map_eq_some_iff.mp hrun
  obtain ⟨hclosed, hdraws⟩ := Prod.mk.inj hvalues
  have hstart : machine.Reachable created := .init created_created
  exact ⟨n, hn, hclosed, hdraws, ids_never_alias (hstart.exec _ hn)⟩

/-! ### Values drawn for nothing

`reserve_id` draws a value for each slot it meets, also for those in use.  When all slots are in use it draws 65536
values and gives no id; so the values are used up long before so many ids have been given.
-/

section Drawn

variable {n : Sockets} {m : ℕ}

/-- The next value drawn meets a slot that is not in use, and is given. -/
theorem step_reserve {id : ℕ} (haborted : n.aborted = false) (halloc : n.server.allocId + 1 = id)
    (hsmall : id < 2 ^ 31) (hfree : ¬ n.Used (hashId id)) :
  ∃ s : Socket, s.type = .reserve ∧ s.id = id ∧
    s.sendBufferEmpty = (n.server.slot (hashId id)).sendBufferEmpty ∧
    n.step .reserve = some { n with
      server := { n.server with allocId := id }.put (hashId id) s
      given := n.given + 1
      draws := n.draws + 1
      pending := id :: n.pending }
  := by
  have hlt : n.server.allocId < 2 ^ 31 := by omega
  have hspec := SocketServer.reserve_spec MAX_SOCKET hlt
  rw [halloc] at hspec
  rcases hspec with ⟨j, -, -, hbefore, hresult⟩ | ⟨hall, -⟩
  · obtain rfl : j = 0 := by
      by_contra hj
      exact hfree (hbefore 0 (Nat.pos_of_ne_zero hj))
    rw [Nat.add_zero, Nat.mod_eq_of_lt hsmall] at hresult
    have hrun : ¬ n.aborted = true := Bool.eq_false_iff.mp haborted
    have hstep : n.step .reserve = some { n.drawn n.server.reserveId with
        pending := n.server.reserveId.id.toList ++ n.pending } := by
      rw [step, if_neg hrun]
    rw [SocketServer.reserveId, hresult] at hstep
    exact ⟨{ n.server.slot (hashId id) with type := .reserve, id := id, fd := -1 }, rfl, rfl, rfl, hstep⟩
  · exact absurd (hall 0 (by decide)) hfree

/-- The ids up to `m` have been given, one after the other, and none has been opened yet. -/
structure Filled (m : ℕ) (n : Sockets) : Prop where
  allocId : n.server.allocId = m
  draws : n.draws = m
  given : n.given = m
  pending : n.pending.Nodup ∧ (∀ id ∈ n.pending, id ≤ m) ∧ (0 < m → 1 ∈ n.pending)
  closed : n.closed = []
  aborted : n.aborted = false
  used : ∀ k, 0 < k → k ≤ m → n.Used (k % MAX_SOCKET)
  unused : ∀ k, m < k → k ≤ MAX_SOCKET → ¬ n.Used (k % MAX_SOCKET)
  empty : ∀ i, (n.server.slot i).sendBufferEmpty = true
  first : 0 < m → (n.server.slot 1).type = .reserve ∧ (n.server.slot 1).id = 1

theorem filled_created :
  Filled 0 created
  := by
  constructor
  · rfl
  · rfl
  · rfl
  · exact ⟨List.nodup_nil, nofun, nofun⟩
  · rfl
  · rfl
  · exact fun k hpos hle => absurd hpos (Nat.not_lt.mpr hle)
  · exact fun k _ _ hused => hused rfl
  · exact fun _ => rfl
  · exact nofun

/-- The next id is given. -/
theorem Filled.reserve (h : Filled m n) (hm : m < MAX_SOCKET) :
  ∃ n', n.step .reserve = some n' ∧ Filled (m + 1) n'
  := by
  have hsmall : m + 1 < 2 ^ 31 := by
    have hle : m + 1 ≤ 2 ^ 16 := hm
    omega
  obtain ⟨s, hreserve, hid, hempty, hstep⟩ := step_reserve h.aborted (congrArg (· + 1) h.allocId) hsmall
    (h.unused (m + 1) (Nat.lt_succ_self m) hm)
  refine ⟨_, hstep, ?_⟩
  let i := hashId (m + 1)
  have hself : Function.update n.server.slot i s i = s := Function.update_self _ _ _
  have hother : ∀ k, k ≤ MAX_SOCKET → 0 < k → k ≠ m + 1 →
      Function.update n.server.slot i s (k % MAX_SOCKET) = n.server.slot (k % MAX_SOCKET) := by
    intro k hk hpos hne
    apply Function.update_of_ne
    dsimp only [i, hashId]
    rw [MAX_SOCKET] at hk hm ⊢
    omega
  constructor
  · rfl
  · exact congrArg (· + 1) h.draws
  · exact congrArg (· + 1) h.given
  · obtain ⟨hnodup, hle, hfirst⟩ := h.pending
    refine ⟨List.nodup_cons.mpr ⟨fun hmem => ?_, hnodup⟩, fun id hid => ?_, fun _ => ?_⟩
    · exact absurd (hle _ hmem) (Nat.not_succ_le_self m)
    · rcases List.mem_cons.mp hid with rfl | hid
      · exact Nat.le_refl _
      · exact Nat.le_succ_of_le (hle id hid)
    · rcases Nat.eq_zero_or_pos m with rfl | hpos
      · exact .head _
      · exact .tail _ (hfirst hpos)
  · exact h.closed
  · exact h.aborted
  · intro k hpos hk
    rcases eq_or_ne k (m + 1) with rfl | hne
    · intro htype
      have hinvalid : s.type = .invalid := (congrArg Socket.type hself).symm.trans htype
      rw [hreserve] at hinvalid
      cases hinvalid
    · intro htype
      have hsame := hother k (Nat.le_trans hk hm) hpos hne
      exact h.used k hpos (by omega) ((congrArg Socket.type hsame).symm.trans htype)
  · intro k hlt hk hused
    apply h.unused k (by omega) hk
    intro hinvalid
    apply hused
    have hsame := hother k hk (by omega) (by omega)
    exact (congrArg Socket.type hsame).trans hinvalid
  · intro k
    rcases eq_or_ne k i with rfl | hne
    · exact (congrArg Socket.sendBufferEmpty hself).trans (hempty.trans (h.empty i))
    · have hsame : Function.update n.server.slot i s k = n.server.slot k := Function.update_of_ne hne _ _
      exact (congrArg Socket.sendBufferEmpty hsame).trans (h.empty k)
  · intro _
    rcases Nat.eq_zero_or_pos m with rfl | hpos
    · exact ⟨(congrArg Socket.type hself).trans hreserve, (congrArg Socket.id hself).trans hid⟩
    · have hsame := hother 1 (by decide) Nat.one_pos (by omega)
      obtain ⟨htype, hid⟩ := h.first hpos
      exact ⟨(congrArg Socket.type hsame).trans htype, (congrArg Socket.id hsame).trans hid⟩

theorem drawn_none (n : Sockets) (ss : SocketServer) (draws : ℕ) :
  ({ n.drawn ⟨ss, none, draws⟩ with pending := (none : Option ℕ).toList ++ n.pending } : Sockets) =
    { n with server := ss, draws := n.draws + draws }
  := rfl

/-- All slots are in use, and no id is given. -/
structure Exhausted (n : Sockets) : Prop where
  aborted : n.aborted = false
  used : ∀ i, i < MAX_SOCKET → n.Used i
  allocId : n.server.allocId < 2 ^ 31

/-- `reserve_id` draws a value for each slot. -/
theorem Exhausted.reserve (h : Exhausted n) :
  n.step .reserve = some { n with
    server := { n.server with allocId := (n.server.allocId + MAX_SOCKET) % 2 ^ 31 }
    draws := n.draws + MAX_SOCKET }
  := by
  have hresult : n.server.reserveId =
      ⟨{ n.server with allocId := (n.server.allocId + MAX_SOCKET) % 2 ^ 31 }, none, MAX_SOCKET⟩ := by
    rcases SocketServer.reserve_spec MAX_SOCKET h.allocId with ⟨j, -, hinvalid, -⟩ | ⟨-, hresult⟩
    · exact absurd hinvalid (h.used _ (Nat.mod_lt _ (by decide)))
    · exact hresult
  have hstep : n.step .reserve = some { n.drawn n.server.reserveId with
      pending := n.server.reserveId.id.toList ++ n.pending } := by
    rw [step, if_neg (Bool.eq_false_iff.mp h.aborted)]
  rw [hstep, hresult]
  exact congrArg some (drawn_none n _ _)

/-- It does so as often as it is called. -/
theorem Exhausted.exec (h : Exhausted n) (t : ℕ) :
  machine.exec n (List.replicate t .reserve) = some { n with
    server := { n.server with allocId := (n.server.allocId + t * MAX_SOCKET) % 2 ^ 31 }
    draws := n.draws + t * MAX_SOCKET }
  := by
  induction t generalizing n with
  | zero =>
      rw [List.replicate_zero, Machine.exec, Nat.zero_mul, Nat.add_zero, Nat.add_zero, Nat.mod_eq_of_lt h.allocId]
  | succ t ih =>
      rw [List.replicate_succ, Machine.exec_cons h.reserve, ih]
      · dsimp only
        rw [Nat.mod_add_mod, Nat.add_assoc, Nat.add_assoc, Nat.succ_mul, Nat.add_comm MAX_SOCKET]
      · have hmod : (n.server.allocId + MAX_SOCKET) % 2 ^ 31 < 2 ^ 31 := Nat.mod_lt _ (by decide)
        refine ⟨h.aborted, fun i hi => ?_, hmod⟩
        rw [Used]
        exact h.used i hi

/-- All ids up to 65536 can be given. -/
theorem exec_fill (m : ℕ) (hm : m ≤ MAX_SOCKET) :
  ∃ n, machine.exec created (List.replicate m .reserve) = some n ∧ Filled m n
  := by
  induction m with
  | zero => exact ⟨created, rfl, filled_created⟩
  | succ m ih =>
      obtain ⟨n, hn, hfilled⟩ := ih (Nat.le_of_succ_le hm)
      obtain ⟨n', hstep, hfilled'⟩ := hfilled.reserve hm
      refine ⟨n', ?_, hfilled'⟩
      rw [List.replicate_succ', Machine.exec_append hn]
      exact Machine.exec_cons hstep []

theorem Filled.exhausted (h : Filled MAX_SOCKET n) :
  Exhausted n
  := by
  constructor
  · exact h.aborted
  · intro i hi
    rcases Nat.eq_zero_or_pos i with rfl | hpos
    · exact h.used MAX_SOCKET (by decide) (Nat.le_refl _)
    · have hused := h.used i hpos (Nat.le_of_lt hi)
      rw [Nat.mod_eq_of_lt hi] at hused
      exact hused
  · rw [h.allocId]
    decide

/-- An id that has been reserved is opened to listen. -/
theorem step_listen {id : ℕ} (haborted : n.aborted = false) (hpending : id ∈ n.pending)
    (htype : (n.server.slot (hashId id)).type = .reserve)
    (hempty : (n.server.slot (hashId id)).sendBufferEmpty = true) (opaqueId : ℕ) (fd : ℤ) :
  ∃ s : Socket, s.type = .plisten ∧ s.id = id ∧ s.sendBufferEmpty = true ∧
    n.step (.opening id (.listen opaqueId fd)) = some { n with
      server := n.server.put (hashId id) s
      pending := n.pending.erase id }
  := by
  let s : Socket := { n.server.slot (hashId id) with
    id := id
    fd := fd
    protocol := .tcp
    size := MIN_READ_BUFFER
    opaqueId := opaqueId
    wbSize := 0
    warnSize := 0 }
  have hnew : n.server.newFd id fd .tcp opaqueId false true = .ok (n.server.put (hashId id) s, true) := by
    rw [SocketServer.newFd]
    rw [if_neg fun hne => hne htype, if_neg (by rintro ⟨⟨⟩, -⟩), if_pos hempty]
  have hlisten : n.server.openRequest id (.listen opaqueId fd) =
      .ok (n.server.put (hashId id) { s with type := .plisten }, .none) := by
    rw [SocketServer.openRequest, SocketServer.listenSocket, hnew]
    dsimp only
    rw [SocketServer.setType_put]
  refine ⟨{ s with type := .plisten }, rfl, rfl, hempty, ?_⟩
  have hslot : ((n.server.put (hashId id) { s with type := .plisten }).slot (hashId id)).type ≠ .invalid := by
    rw [SocketServer.slot_put]
    rintro ⟨⟩
  rw [step, hlisten, if_neg]
  · dsimp only
    rw [if_neg hslot]
  · rw [haborted, not_or]
    exact ⟨by rintro ⟨⟩, not_not.mpr hpending⟩

/-- A socket that is to listen is closed. -/
theorem step_close {id : ℕ} (haborted : n.aborted = false) (htype : (n.server.slot (hashId id)).type = .plisten)
    (hid : (n.server.slot (hashId id)).id = id) (hempty : (n.server.slot (hashId id)).sendBufferEmpty = true)
    (hpending : id ∉ n.pending) (opaqueId : ℕ) :
  ∃ s : Socket, s.type = .invalid ∧ s.sendBufferEmpty = true ∧
    n.step (.close id false opaqueId []) = some { n with
      server := n.server.put (hashId id) s
      closed := id :: n.closed }
  := by
  let s : Socket := { n.server.slot (hashId id) with high := [], low := [], type := .invalid }
  have hclose : (n.server.slot (hashId id)).closeSocket id false opaqueId [] =
      .ok ⟨s, [], true, false, [], .close ⟨id, opaqueId, 0, none⟩⟩ := by
    have hvalid : ¬ ((n.server.slot (hashId id)).type = .invalid ∨ (n.server.slot (hashId id)).id ≠ id) := by
      rw [htype, hid]
      exact not_or.mpr ⟨nofun, fun hne => hne rfl⟩
    rw [Socket.closeSocket]
    dsimp only
    rw [if_neg hvalid, if_neg (not_not.mpr hempty), if_pos (.inr hempty), Socket.closeWith, Socket.forceClose]
    rw [htype]
    rfl
  refine ⟨s, rfl, rfl, ?_⟩
  have hused : n.Used (hashId id) := by
    rw [Used, htype]
    exact nofun
  have hrun : ¬ n.aborted = true := Bool.eq_false_iff.mp haborted
  have hgiven : (n.server.slot (hashId id)).id ∉ n.pending := hid.symm ▸ hpending
  rw [step, if_neg hrun, hclose, finish, if_pos ⟨hused, rfl, hgiven⟩, hid]

end Drawn

/-- All ids up to 65536 are given, and `reserve_id` is called 32767 times more; then the socket with the id 1 is opened
and closed, and its id is given once more and opened. -/
def reuse : List Step :=
  List.replicate 65536 .reserve ++ (List.replicate 32767 .reserve ++
    [.opening 1 (.listen 7 5), .close 1 false 7 [], .reserve, .opening 1 (.listen 8 6)])

/-- 65537 ids have been given; a request that names the socket that has been closed closes the other one. -/
theorem id_given_twice :
  ∃ n n', machine.exec created reuse = some n ∧ n.given < 2 ^ 31 ∧ 1 ∈ n.closed ∧
    n.step (.close 1 false 7 []) = some n' ∧ (n.server.slot 1).type = .plisten ∧ (n'.server.slot 1).type = .invalid
  := by
  obtain ⟨n, hn, hfilled⟩ := exec_fill 65536 (Nat.le_refl _)
  obtain ⟨hnodup, -, hpending⟩ := hfilled.pending
  have hpending := hpending (by decide)
  obtain ⟨htype, hid⟩ := hfilled.first (by decide)
  have hwrap := hfilled.exhausted.exec 32767
  rw [hfilled.allocId] at hwrap
  have hzero : (65536 + 32767 * MAX_SOCKET) % 2 ^ 31 = 0 := by decide
  rw [hzero] at hwrap
  let n₀ : Sockets := { n with
    server := { n.server with allocId := 0 }
    draws := n.draws + 32767 * MAX_SOCKET }
  -- the socket with the id 1 is opened and closed
  obtain ⟨s₁, htype₁, hid₁, hempty₁, hstep₁⟩ :=
    step_listen (n := n₀) hfilled.aborted hpending htype (hfilled.empty 1) 7 5
  let n₁ : Sockets := { n₀ with
    server := n₀.server.put (hashId 1) s₁
    pending := n₀.pending.erase 1 }
  have hslot₁ : n₁.server.slot (hashId 1) = s₁ := SocketServer.slot_put _ _ _
  have hnot : 1 ∉ n₁.pending := hnodup.not_mem_erase
  obtain ⟨s₂, htype₂, hempty₂, hstep₂⟩ :=
    step_close (n := n₁) hfilled.aborted (hslot₁.symm ▸ htype₁) (hslot₁.symm ▸ hid₁) (hslot₁.symm ▸ hempty₁) hnot 7
  let n₂ : Sockets := { n₁ with
    server := n₁.server.put (hashId 1) s₂
    closed := 1 :: n₁.closed }
  have hslot₂ : n₂.server.slot (hashId 1) = s₂ := SocketServer.slot_put _ _ _
  have hfree₂ : ¬ n₂.Used (hashId 1) := fun hused => hused (hslot₂.symm ▸ htype₂)
  -- its id is given and opened once more
  have halloc₂ : n₂.server.allocId + 1 = 1 := rfl
  obtain ⟨s₃, htype₃, -, hempty₃, hstep₃⟩ := step_reserve (n := n₂) hfilled.aborted halloc₂ (by decide) hfree₂
  let n₃ : Sockets := { n₂ with
    server := { n₂.server with allocId := 1 }.put (hashId 1) s₃
    given := n₂.given + 1
    draws := n₂.draws + 1
    pending := 1 :: n₂.pending }
  have hslot₃ : n₃.server.slot (hashId 1) = s₃ := SocketServer.slot_put _ _ _
  rw [hslot₂, hempty₂] at hempty₃
  obtain ⟨s₄, htype₄, hid₄, hempty₄, hstep₄⟩ :=
    step_listen (n := n₃) hfilled.aborted (.head _) (hslot₃.symm ▸ htype₃) (hslot₃.symm ▸ hempty₃) 8 6
  let n₄ : Sockets := { n₃ with
    server := n₃.server.put (hashId 1) s₄
    pending := n₃.pending.erase 1 }
  have hslot₄ : n₄.server.slot (hashId 1) = s₄ := SocketServer.slot_put _ _ _
  have hnot₄ : 1 ∉ n₄.pending := hnot
  obtain ⟨s₅, htype₅, -, hstep₅⟩ :=
    step_close (n := n₄) hfilled.aborted (hslot₄.symm ▸ htype₄) (hslot₄.symm ▸ hid₄) (hslot₄.symm ▸ hempty₄) hnot₄ 7
  refine ⟨n₄, _, ?_, ?_, .head _, hstep₅, ?_, ?_⟩
  · rw [reuse, Machine.exec_append hn, Machine.exec_append hwrap, Machine.exec_cons hstep₁, Machine.exec_cons hstep₂,
      Machine.exec_cons hstep₃]
    exact Machine.exec_cons hstep₄ []
  · have hgiven : n₄.given = 65536 + 1 := congrArg (· + 1) hfilled.given
    rw [hgiven]
    decide
  · exact hslot₄.symm ▸ htype₄
  · exact htype₅

end Sockets

end Skynet
