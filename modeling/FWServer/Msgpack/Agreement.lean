import FWServer.Msgpack.Pack

/-!
# Agreement of the two ends

A client end and a server end, both started, exchange packets over two channels that keep the
order and lose nothing.  Packets are delivered in any order of the two channels, and an
application sends once its own end has finished the handshake.

The phases of a connection are those of `Phase`: the handshake is one packet on its way, in one
direction or the other, until the server has finished it, and from then on whatever follows
the last handshake packet is encoded with the negotiated key.
-/

open Lua

namespace Pack

namespace Connection

/-- The two ends and the packets on their way, the next to arrive first. -/
structure State where
  client : Pack.State
  server : Pack.State
  toServer : List Packet
  toClient : List Packet

/-- The packets among outputs. -/
def sends (out : List Output) : List Packet :=
  out.filterMap fun
    | .send p => some p
    | .endfunc => none

/-- A step: the next packet of a channel is delivered at the time `nowt`, or an application
sends a message. -/
inductive Step where
  | toServer (nowt : ℤ)
  | toClient (nowt : ℤ)
  | clientSends (msg : Msg)
  | serverSends (msg : Msg)

/-- The step function. -/
def step (s : State) : Step → Option State
  | .toServer nowt =>
      match s.toServer with
      | [] => none
      | p :: ps =>
          let (server, out) := execute 0 nowt p s.server
          some { s with server := server, toServer := ps, toClient := s.toClient ++ sends out }
  | .toClient nowt =>
      match s.toClient with
      | [] => none
      | p :: ps =>
          let (client, out) := execute 1 nowt p s.client
          some { s with client := client, toClient := ps, toServer := s.toServer ++ sends out }
  | .clientSends msg =>
      if s.client.mState = .num 3 then
        some { s with toServer := s.toServer ++ [packmsg msg s.client] }
      else none
  | .serverSends msg =>
      if s.server.mState = .num 3 then
        some { s with toClient := s.toClient ++ [packmsg msg s.server] }
      else none

/-- A connection whose ends have just been started, at the time `nowt` and with the key `ckey`
of the server. -/
def started (nowt : ℤ) (ckey : Value) : State :=
  let (client, out) := start 1 nowt .nil
  let (server, out') := start 0 nowt ckey
  ⟨client, server, sends out, sends out'⟩

/-- The machine of all orders of sends and deliveries. -/
def machine : Machine State Step where
  init s := ∃ nowt ckey, s = started nowt ckey
  step := step

/-! ### Decoding -/

/-- An end in the state `s` decodes every packet of a channel, when it arrives, with the key
it was encoded with. -/
def Decodes (isclient : ℤ) : Pack.State → List Packet → Prop
  | _, [] => True
  | s, p :: ps => p.key = key s ∧ ∀ nowt, Decodes isclient (execute isclient nowt p s).1 ps

/-- An end that has finished the handshake stays as it is. -/
theorem execute_of_done (isclient nowt : ℤ) (p : Packet) {s : Pack.State}
    (h : s.mState = .num 3) :
  execute isclient nowt p s = (s, [])
  := by
  unfold execute
  split
  · rfl
  · simp [executeMsg, h]

/-- An end that has finished the handshake decodes a channel of packets encoded with its key. -/
theorem decodes_of_done (isclient : ℤ) {s : Pack.State} (h : s.mState = .num 3)
    {ps : List Packet} (hps : ∀ p ∈ ps, p.key = key s) :
  Decodes isclient s ps
  := by
  induction ps with
  | nil => trivial
  | cons p ps ih =>
      constructor
      · apply hps p (List.mem_cons_self)
      · intro nowt
        rw [execute_of_done isclient nowt p h]
        apply ih fun q hq => hps q (List.mem_cons_of_mem p hq)

/-! ### The phases -/

/-- The state of a client or server end that has agreed on encryption with the key `ckey`. -/
def agreed (ckey : Value) : Pack.State :=
  ⟨.num 3, netcheckpackflag, ckey⟩

/-- The state of a client end that has not heard of a key yet. -/
def clientAt (state : ℤ) : Pack.State :=
  ⟨.num state, .str "", .nil⟩

/-- The state of a server end with the key `ckey`. -/
def serverAt (ckey : Value) (state : ℤ) : Pack.State :=
  ⟨.num state, netcheckpackflag, ckey⟩

/-- The packets are application messages encoded with the key `ckey`. -/
def Encrypted (ckey : Value) (ps : List Packet) : Prop :=
  ∀ p ∈ ps, p.key = .ckey ckey

/-- The phases of a connection whose server drew the key `ckey`. -/
inductive Phase (ckey : Value) : State → Prop
  /-- The client has opened the handshake. -/
  | hello (nowt : ℤ) :
      Phase ckey ⟨clientAt 1, serverAt ckey 1,
        [sendhandshake 1 nowt checknotip .nil (clientAt 1)], []⟩
  /-- The server has answered. -/
  | answer (nowt : ℤ) :
      Phase ckey ⟨clientAt 1, serverAt ckey 2, [],
        [sendhandshake 0 nowt checknotip (.num 2) (serverAt ckey 2)]⟩
  /-- The client has confirmed. -/
  | confirm (nowt : ℤ) :
      Phase ckey ⟨clientAt 2, serverAt ckey 2,
        [sendhandshake 1 nowt checknotip (.num 2) (clientAt 2)], []⟩
  /-- The server has finished, and what it has sent since follows the key. -/
  | served (nowt : ℤ) (ps : List Packet) :
      Encrypted ckey ps →
      Phase ckey ⟨clientAt 2, agreed ckey, [],
        sendhandshake 0 nowt netcheckpackflag (.num 3) (serverAt ckey 2) :: ps⟩
  /-- Both ends have finished. -/
  | done (ps qs : List Packet) :
      Encrypted ckey ps → Encrypted ckey qs → Phase ckey ⟨agreed ckey, agreed ckey, ps, qs⟩

theorem Encrypted.append {ckey : Value} {ps : List Packet} (h : Encrypted ckey ps)
    (msg : Msg) :
  Encrypted ckey (ps ++ [packmsg msg (agreed ckey)])
  := by
  intro p hp
  rcases List.mem_append.mp hp with hp | hp
  · apply h p hp
  · obtain rfl := List.mem_singleton.mp hp
    rfl

theorem Encrypted.tail {ckey : Value} {p : Packet} {ps : List Packet}
    (h : Encrypted ckey (p :: ps)) :
  Encrypted ckey ps
  := fun q hq => h q (List.mem_cons_of_mem p hq)

/-! ### One handshake packet after the other -/

/-- The fields of the table a handshake packet carries. -/
theorem sendhandshake_fields (isclient nowt : ℤ) (proto state : Value) (s : Pack.State) :
  ∃ t, sendhandshake isclient nowt proto state s = ⟨key s, .tab t⟩ ∧
    t.get (.str "isclient") = .num isclient ∧ t.get (.str "proto") = proto ∧
    t.get (.str "state") = state ∧
    (state = .num 3 → isclient = 0 → t.get (.str "ckey") = s.mCkey)
  := by
  refine ⟨_, rfl, ?_, ?_, ?_, ?_⟩
  · split <;> simp [Table.ofFields]
  · split <;> simp [Table.ofFields]
  · split <;> simp [Table.ofFields]
  · intro hstate hclient
    rw [if_pos ⟨hstate, hclient⟩]
    simp

/-- The server answers the opening table. -/
theorem execute_hello (nowt nowt' : ℤ) (ckey : Value) :
  execute 0 nowt (sendhandshake 1 nowt' checknotip .nil (clientAt 1)) (serverAt ckey 1)
    = (serverAt ckey 2, [.send (sendhandshake 0 nowt checknotip (.num 2) (serverAt ckey 2))])
  := by
  obtain ⟨t, ht, hclient, hproto, -, -⟩ :=
    sendhandshake_fields 1 nowt' checknotip .nil (clientAt 1)
  rw [ht]
  simp [execute, checkmsg, key, executeMsg, recvhandshake, isClient, clientAt, serverAt,
    hclient, hproto]

/-- The client confirms the answer. -/
theorem execute_answer (nowt nowt' : ℤ) (ckey : Value) :
  execute 1 nowt (sendhandshake 0 nowt' checknotip (.num 2) (serverAt ckey 2)) (clientAt 1)
    = (clientAt 2, [.send (sendhandshake 1 nowt checknotip (.num 2) (clientAt 2))])
  := by
  obtain ⟨t, ht, hclient, hproto, hstate, -⟩ :=
    sendhandshake_fields 0 nowt' checknotip (.num 2) (serverAt ckey 2)
  rw [ht]
  simp [execute, checkmsg, key, executeMsg, recvhandshake, isClient, isServer, clientAt,
    serverAt, hclient, hproto, hstate]

/-- The server finishes at the confirmation. -/
theorem execute_confirm (nowt nowt' : ℤ) (ckey : Value) :
  execute 0 nowt (sendhandshake 1 nowt' checknotip (.num 2) (clientAt 2)) (serverAt ckey 2)
    = (agreed ckey,
        [.send (sendhandshake 0 nowt netcheckpackflag (.num 3) (serverAt ckey 2)), .endfunc])
  := by
  obtain ⟨t, ht, hclient, hproto, hstate, -⟩ :=
    sendhandshake_fields 1 nowt' checknotip (.num 2) (clientAt 2)
  rw [ht]
  simp [execute, checkmsg, key, executeMsg, recvhandshake, isClient, clientAt, serverAt,
    agreed, hclient, hproto, hstate]

/-- The client finishes at the packet that carries the key. -/
theorem execute_finish (nowt nowt' : ℤ) (ckey : Value) :
  execute 1 nowt (sendhandshake 0 nowt' netcheckpackflag (.num 3) (serverAt ckey 2)) (clientAt 2)
    = (agreed ckey, [.endfunc])
  := by
  obtain ⟨t, ht, hclient, hproto, hstate, hckey⟩ :=
    sendhandshake_fields 0 nowt' netcheckpackflag (.num 3) (serverAt ckey 2)
  rw [ht]
  simp [execute, checkmsg, key, executeMsg, recvhandshake, isClient, isServer, clientAt,
    serverAt, agreed, hclient, hproto, hstate, hckey rfl rfl]

/-- A step leads from one phase to a phase. -/
theorem Phase.step {ckey : Value} {s s' : State} {l : Step} (h : Phase ckey s)
    (hstep : Connection.step s l = some s') :
  Phase ckey s'
  := by
  cases h with
  | hello nowt' =>
      cases l with
      | toServer nowt =>
          simp only [Connection.step, execute_hello, Option.some.injEq] at hstep
          subst hstep
          apply Phase.answer nowt
      | toClient nowt => cases hstep
      | clientSends msg => cases hstep
      | serverSends msg => cases hstep
  | answer nowt' =>
      cases l with
      | toServer nowt => cases hstep
      | toClient nowt =>
          simp only [Connection.step, execute_answer, Option.some.injEq] at hstep
          subst hstep
          apply Phase.confirm nowt
      | clientSends msg => cases hstep
      | serverSends msg => cases hstep
  | confirm nowt' =>
      cases l with
      | toServer nowt =>
          simp only [Connection.step, execute_confirm, Option.some.injEq] at hstep
          subst hstep
          apply Phase.served nowt [] nofun
      | toClient nowt => cases hstep
      | clientSends msg => cases hstep
      | serverSends msg => cases hstep
  | served nowt' ps hps =>
      cases l with
      | toServer nowt => cases hstep
      | toClient nowt =>
          simp only [Connection.step, execute_finish, Option.some.injEq] at hstep
          subst hstep
          apply Phase.done [] ps nofun hps
      | clientSends msg => cases hstep
      | serverSends msg =>
          obtain rfl := Option.some.inj hstep
          apply Phase.served nowt' (ps ++ [packmsg msg (agreed ckey)]) (hps.append msg)
  | done ps qs hps hqs =>
      cases l with
      | toServer nowt =>
          cases ps with
          | nil => cases hstep
          | cons p ps =>
              simp only [Connection.step, execute_of_done 0 nowt p (s := agreed ckey) rfl,
                Option.some.injEq] at hstep
              subst hstep
              rw [sends, List.filterMap_nil, List.append_nil]
              apply Phase.done ps qs hps.tail hqs
      | toClient nowt =>
          cases qs with
          | nil => cases hstep
          | cons q qs =>
              simp only [Connection.step, execute_of_done 1 nowt q (s := agreed ckey) rfl,
                Option.some.injEq] at hstep
              subst hstep
              rw [sends, List.filterMap_nil, List.append_nil]
              apply Phase.done ps qs hps hqs.tail
      | clientSends msg =>
          obtain rfl := Option.some.inj hstep
          apply Phase.done _ qs (hps.append msg) hqs
      | serverSends msg =>
          obtain rfl := Option.some.inj hstep
          apply Phase.done ps _ hps (hqs.append msg)

/-- The ends of a connection agree once both have finished, and each decodes every packet on
its way to it with the key it was encoded with. -/
structure Agreement (s : State) : Prop where
  proto : s.client.mState = .num 3 → s.server.mState = .num 3 →
    s.client.mProto = s.server.mProto
  ckey : s.client.mState = .num 3 → s.server.mState = .num 3 → s.client.mCkey = s.server.mCkey
  toServer : Decodes 0 s.server s.toServer
  toClient : Decodes 1 s.client s.toClient

/-- A single handshake packet is decoded with the handshake key. -/
theorem decodes_handshake (isclient isclient' nowt : ℤ) (proto state : Value)
    {s s' : Pack.State} (h : key s' = key s) :
  Decodes isclient s' [sendhandshake isclient' nowt proto state s]
  := ⟨h.symm, fun _ => trivial⟩

/-- In every phase the ends agree. -/
theorem Phase.agreement {ckey : Value} {s : State} (h : Phase ckey s) :
  Agreement s
  := by
  cases h with
  | hello nowt => exact ⟨nofun, nofun, decodes_handshake 0 1 nowt _ _ rfl, trivial⟩
  | answer nowt => exact ⟨nofun, nofun, trivial, decodes_handshake 1 0 nowt _ _ rfl⟩
  | confirm nowt => exact ⟨nofun, nofun, decodes_handshake 0 1 nowt _ _ rfl, trivial⟩
  | served nowt ps hps =>
      refine ⟨nofun, nofun, trivial, rfl, fun nowt' => ?_⟩
      rw [execute_finish]
      apply decodes_of_done 1 (s := agreed ckey) rfl hps
  | done ps qs hps hqs =>
      exact ⟨fun _ _ => rfl, fun _ _ => rfl, decodes_of_done 0 (s := agreed ckey) rfl hps,
        decodes_of_done 1 (s := agreed ckey) rfl hqs⟩

/-- In every state a connection reaches, by any order of sends and deliveries, the ends agree
once both have finished the handshake, and every packet on its way is going to be decoded with
the key it was encoded with. -/
theorem ends_agree (nowt : ℤ) (ckey : Value) (ls : List Step) :
  machine.Always Agreement (started nowt ckey) ls
  := by
  have hphases : machine.Always (Phase ckey) (started nowt ckey) ls :=
    Machine.always_of_invariant (fun _ _ _ h hstep => h.step hstep) (Phase.hello nowt) ls
  apply hphases.mono fun _ h => h.agreement

end Connection

end Pack
