import FWServer.Skynet.HarborStream

/-!
# Messages to global names

A message to a name waits in the queue of the name until the name is bound, and then in that of the slave until
it is connected.  `names` is the harbor together with what it has put out and what has been sent to each name.

Once a name is bound and the slave is connected, the messages that were sent to the name are delivered, each
once and in order, with the handle as destination (`named_delivered`).  This is so as long as no name is bound
to a handle of a node that is not connected while messages wait for it: `dispatch_name_queue` moves these to
the queue of the slave as they are, and their destination is never filled in.

Which messages have been sent to which name is seen from their buffers: `origin` is the name that a buffer is
sent to.
-/

namespace Skynet

namespace Harbor

variable {β : Type} {data : β → List UInt8} {found : ℕ → Bool} {origin : β → Option Name}
variable {h : Harbor β} {x : Name} {out : List (Output β)}

/-! ### Sending to names -/

/-- A message that has been sent to a name. -/
structure Sent (β : Type) where
  source : ℕ
  type : UInt8
  session : Session
  buffer : β

/-- The header of a message to a handle; the handle is `0` as long as it is not known. -/
def Sent.header (handle : ℕ) (m : Sent β) : Header :=
  ⟨m.source, (m.type.toNat <<< HANDLE_REMOTE_SHIFT) ||| (handle &&& HANDLE_MASK), uint32 m.session.val⟩

/-- A message in a queue. -/
def Sent.queued (handle : ℕ) (m : Sent β) : HarborMsg β :=
  ⟨m.header handle, m.buffer⟩

/-- How a message to a handle is put out, here or to another node. -/
def delivery (h : Harbor β) (handle : ℕ) (m : Sent β) : Output β :=
  if handle >>> HANDLE_REMOTE_SHIFT = h.id then
    .deliver m.source handle (m.type.toNat ||| PTYPE_TAG_DONTCOPY) m.session.val m.buffer
  else .remote (h.s (handle >>> HANDLE_REMOTE_SHIFT)).fd m.buffer (m.header handle)

/-- The harbor, what it has put out, and what has been sent to each name. -/
structure World (β : Type) where
  harbor : Harbor β
  out : List (Output β)
  sent : Name → List (Sent β)

/-- What has been sent to each name after a message. -/
def sentBy (sent : Name → List (Sent β)) : Message β → Name → List (Sent β)
  | .toName source name type session buffer =>
      Function.update sent name (sent name ++ [⟨source, type, session, buffer⟩])
  | _ => sent

/-- The harbor, message after message, in a node whose slave service has the id of the node in its handle. -/
def names (data : β → List UInt8) (found : ℕ → Bool) : Machine (World β) (Message β) where
  init w := Started w.harbor ∧ w.harbor.slave >>> HANDLE_REMOTE_SHIFT = w.harbor.id ∧ w.out = [] ∧
    ∀ x, w.sent x = []
  step w m := some ⟨(mainloop data found w.harbor m).2, w.out ++ (mainloop data found w.harbor m).1,
    sentBy w.sent m⟩

/-- The name that the buffer of an output has been sent to. -/
def Output.name (origin : β → Option Name) : Output β → Option Name
  | .deliver _ _ _ _ buffer => origin buffer
  | .remote _ buffer _ => origin buffer
  | _ => none

/-- What has been put out of the messages to a name. -/
def about (origin : β → Option Name) (x : Name) (out : List (Output β)) : List (Output β) :=
  out.filter fun o => o.name origin = some x

/-- The handle is here, or the slave of its node is connected. -/
def Established (h : Harbor β) (handle : ℕ) : Prop :=
  handle >>> HANDLE_REMOTE_SHIFT = h.id ∨ (h.s (handle >>> HANDLE_REMOTE_SHIFT)).status = .HEADER ∨
    (h.s (handle >>> HANDLE_REMOTE_SHIFT)).status = .CONTENT

/-- The messages to a name that is bound have been delivered, if they can be. -/
def Delivered (origin : β → Option Name) (w : World β) : Prop :=
  ∀ x, (w.harbor.search x).value ≠ 0 → Established w.harbor (w.harbor.search x).value →
    about origin x w.out = (w.sent x).map (delivery w.harbor (w.harbor.search x).value)

/-- A name is bound once, and a buffer tells what it is sent to. -/
def Admitted (origin : β → Option Name) (w : World β) : Message β → Prop
  | .N name source => source ≠ 0 ∧ (w.harbor.search name).value = 0
  | .toName _ name _ _ buffer => origin buffer = some name
  | .toHandle _ _ _ _ buffer => origin buffer = none
  | _ => True

/-- The buffer can be sent to another node. -/
def Sendable (data : β → List UInt8) (buffer : β) : Prop :=
  (data buffer).length + HEADER_COOKIE_LENGTH ≤ UINT32_MAX

/-- A name for which messages wait is bound to a handle of this node, to which no slave is connected, or to
that of a node to which one is; and what goes to another node is not too large. -/
def Timely (data : β → List UInt8) (w : World β) : Message β → Prop
  | .N name source =>
      (w.harbor.search name).queue = none ∨
      (source >>> HANDLE_REMOTE_SHIFT = w.harbor.id ∧ (w.harbor.s w.harbor.id).fd = 0) ∨
      (source >>> HANDLE_REMOTE_SHIFT ≠ w.harbor.id ∧
        (w.harbor.s (source >>> HANDLE_REMOTE_SHIFT)).fd ≠ 0 ∧
        ∀ m ∈ w.sent name, Sendable data m.buffer)
  | .toName _ name _ _ buffer =>
      (w.harbor.search name).value ≠ 0 →
      (w.harbor.search name).value >>> HANDLE_REMOTE_SHIFT ≠ w.harbor.id → Sendable data buffer
  | _ => True

/-! ### What concerns a name -/

@[simp]
theorem about_nil :
  about origin x ([] : List (Output β)) = []
  := rfl

theorem about_append (out out' : List (Output β)) :
  about origin x (out ++ out') = about origin x out ++ about origin x out'
  := List.filter_append _ _

theorem about_of_name_ne (hne : ∀ o ∈ out, o.name origin ≠ some x) :
  about origin x out = []
  := by
  apply List.filter_eq_nil_iff.mpr
  intro o ho
  rw [decide_eq_true_eq]
  exact hne o ho

theorem about_of_name (heq : ∀ o ∈ out, o.name origin = some x) :
  about origin x out = out
  := by
  apply List.filter_eq_self.mpr
  intro o ho
  exact decide_eq_true (heq o ho)

/-- The messages to a name in the queue of a slave. -/
def queued (origin : β → Option Name) (x : Name) (s : Slave β) : List (HarborMsg β) :=
  (s.queue.getD []).filter fun m => origin m.buffer = some x

theorem queued_of_none {s : Slave β} (hqueue : s.queue = none) :
  queued origin x s = []
  := by
  rw [queued, hqueue]
  rfl

theorem sendRemote_of_sendable {buffer : β} (hsend : Sendable data buffer) (fd : ℕ) (header : Header) :
  sendRemote data fd buffer header = [.remote fd buffer header]
  := if_neg (Nat.not_lt.mpr hsend)

theorem name_of_mem_sendRemote {fd : ℕ} {buffer : β} {header : Header} {o : Output β}
    (ho : o ∈ sendRemote data fd buffer header) :
  o.name origin = origin buffer
  := by
  unfold sendRemote at ho
  split_ifs at ho
  · contradiction
  · obtain rfl := List.mem_singleton.mp ho
    rfl

/-- Of the messages that are sent to a node, those to a name. -/
theorem about_sendRemote (fd : ℕ) (header : HarborMsg β → Header) (queue : List (HarborMsg β))
    (hsend : ∀ m ∈ queue, origin m.buffer = some x → Sendable data m.buffer) :
  about origin x (queue.flatMap fun m => sendRemote data fd m.buffer (header m)) =
    (queue.filter fun m => origin m.buffer = some x).map fun m => .remote fd m.buffer (header m)
  := by
  induction queue with
  | nil => rfl
  | cons m queue ih =>
      have ih := ih fun m hm => hsend m (List.mem_cons_of_mem _ hm)
      rw [List.flatMap_cons, about_append, ih]
      by_cases horigin : origin m.buffer = some x
      · have hone := sendRemote_of_sendable (hsend m List.mem_cons_self horigin) fd (header m)
        rw [hone, List.filter_cons, if_pos (decide_eq_true horigin), List.map_cons, about_of_name]
        · rfl
        · intro o ho
          obtain rfl := List.mem_singleton.mp ho
          exact horigin
      · have hother : ¬decide (origin m.buffer = some x) = true := by rwa [decide_eq_true_eq]
        rw [List.filter_cons, if_neg hother, about_of_name_ne]
        · rfl
        · intro o ho
          rwa [name_of_mem_sendRemote ho]

theorem about_flush {s : Slave β} (hsend : ∀ m ∈ queued origin x s, Sendable data m.buffer) :
  about origin x (flush data s) = (queued origin x s).map fun m => .remote s.fd m.buffer m.header
  := by
  apply about_sendRemote
  intro m hm horigin
  exact hsend m (List.mem_filter.mpr ⟨hm, decide_eq_true horigin⟩)

/-! ### What a slave goes through -/

/-- What becomes of the messages to a name in the queue of a slave: they stay, they are sent, or they are dropped
with the connection. -/
inductive Moved (origin : β → Option Name) (x : Name) (s s' : Slave β) (out : List (Output β)) : Prop
  | kept (hqueue : queued origin x s' = queued origin x s) (hout : about origin x out = [])
  | sent (hfd : s'.fd ≠ 0) (hqueue : queued origin x s' = [])
      (hout : about origin x out = (queued origin x s).map fun m => .remote s'.fd m.buffer m.header)
  | dropped (hstatus : s'.status = .DOWN) (hqueue : queued origin x s' = []) (hout : about origin x out = [])

/-- A slave keeps its socket and stays down. -/
structure Moves (origin : β → Option Name) (x : Name) (s s' : Slave β) (out : List (Output β)) : Prop where
  fd : s.fd ≠ 0 → s'.fd = s.fd
  down : s.status = .DOWN → s'.status = .DOWN
  moved : Moved origin x s s' out

/-- A step of the harbor that changes the slave `id`, if any. -/
structure Shifts (origin : β → Option Name) (x : Name) (h : Harbor β) (r : List (Output β) × Harbor β)
    (id : ℕ) (s' : Slave β) : Prop where
  harbor : r.2 = h.setSlave id s'
  moves : Moves origin x (h.s id) s' r.1

theorem setSlave_eq_self (h : Harbor β) (id : ℕ) :
  h.setSlave id (h.s id) = h
  := by rw [setSlave, Function.update_eq_self]

/-- Nothing concerns the name, and no slave is changed. -/
theorem shifts_self (hout : about origin x out = []) :
  ∃ id s', Shifts origin x h (out, h) id s'
  := by
  refine ⟨0, h.s 0, ?_⟩
  constructor
  · exact (setSlave_eq_self h 0).symm
  · constructor
    · exact fun _ => rfl
    · exact fun hdown => hdown
    · exact .kept rfl hout

section

variable {id : ℕ} {buffer : List UInt8}

/-- From a slave for which nothing waits nothing is sent. -/
structure Quiet (h : Harbor β) (id : ℕ) (out : List (Output β)) (h' : Harbor β) (s' : Slave β) : Prop where
  harbor : h' = h.setSlave id s'
  fd : s'.fd = (h.s id).fd
  down : (h.s id).status = .DOWN → s'.status = .DOWN
  queue : s'.queue = none
  out : ∀ origin : β → Option Name, ∀ o ∈ out, o.name origin = none

theorem forwardLocal_name (msg : List UInt8) {o : Output β} (ho : o ∈ forwardLocal found h msg) :
  o.name origin = none
  := by
  unfold forwardLocal at ho
  dsimp only at ho
  split_ifs at ho
  · obtain rfl := List.mem_singleton.mp ho
    rfl
  · rcases List.mem_cons.mp ho with rfl | ho
    · rfl
    · obtain rfl := List.mem_singleton.mp ho
      rfl
  · obtain rfl := List.mem_singleton.mp ho
    rfl

variable (found) in
theorem content_quiet (hstatus : (h.s id).status ≠ .DOWN) (hqueue : (h.s id).queue = none)
    (buffer : List UInt8) :
  ∃ s', Quiet h id (content found h id buffer).1 (content found h id buffer).2.1 s'
  := by
  rcases Nat.lt_or_ge buffer.length ((h.s id).length - (h.s id).read) with hlt | hle
  · rw [content_short hlt]
    refine ⟨_, ⟨rfl, rfl, ?_, hqueue, nofun⟩⟩
    exact fun hdown => hdown
  · rw [content_full hle]
    refine ⟨_, ⟨rfl, rfl, ?_, hqueue, ?_⟩⟩
    · exact fun hdown => absurd hdown hstatus
    · intro origin o ho
      exact forwardLocal_name _ ho

theorem closeHarbor_quiet (h : Harbor β) (id : ℕ) :
  ∃ s', Quiet h id (closeHarbor h id).1 (closeHarbor h id).2 s'
  := by
  refine ⟨_, ⟨rfl, rfl, fun _ => rfl, rfl, ?_⟩⟩
  intro origin o ho
  unfold closeHarbor at ho
  dsimp only at ho
  split_ifs at ho
  · obtain rfl := List.mem_singleton.mp ho
    rfl
  · contradiction

/-- One after another. -/
theorem Quiet.trans {out out' : List (Output β)} {h' h'' : Harbor β} {s' s'' : Slave β}
    (hfirst : Quiet h id out h' s') (hthen : Quiet h' id out' h'' s'') :
  Quiet h id (out ++ out') h'' s''
  := by
  have hself : h'.s id = s' := by rw [hfirst.harbor, setSlave_self]
  constructor
  · rw [hthen.harbor, hfirst.harbor, setSlave_setSlave]
  · rw [hthen.fd, hself, hfirst.fd]
  · intro hdown
    apply hthen.down
    rw [hself]
    exact hfirst.down hdown
  · exact hthen.queue
  · intro origin o ho
    rcases List.mem_append.mp ho with ho | ho
    · exact hfirst.out origin o ho
    · exact hthen.out origin o ho

/-- The slave has been changed before. -/
theorem Quiet.of_setSlave {h' : Harbor β} {s s' : Slave β} (hfd : s.fd = (h.s id).fd)
    (hdown : (h.s id).status ≠ .DOWN) (hq : Quiet (h.setSlave id s) id out h' s') :
  Quiet h id out h' s'
  := by
  constructor
  · rw [hq.harbor, setSlave_setSlave]
  · rw [hq.fd, setSlave_self, hfd]
  · exact fun hd => absurd hd hdown
  · exact hq.queue
  · exact hq.out

variable (found) in
theorem header_quiet (hstatus : (h.s id).status ≠ .DOWN) (hqueue : (h.s id).queue = none)
    (buffer : List UInt8) :
  ∃ s', Quiet h id (header found h id buffer).1 (header found h id buffer).2.1 s'
  := by
  obtain hlt | ⟨hle, hlong | ⟨hlong, hend | hmore⟩⟩ := header_cases h id buffer
  · rw [header_short hlt]
    refine ⟨_, ⟨rfl, rfl, ?_, hqueue, nofun⟩⟩
    exact fun hdown => hdown
  · rw [header_close hle hlong]
    obtain ⟨s', hq⟩ := closeHarbor_quiet (h.setSlave id { h.s id with size := sizeBytes (h.s id) buffer }) id
    use s'
    apply Quiet.of_setSlave _ hstatus hq
    rfl
  · rw [header_end hle hlong hend]
    refine ⟨_, ⟨rfl, rfl, ?_, hqueue, nofun⟩⟩
    exact fun hdown => absurd hdown hstatus
  · rw [header_content hle hlong hmore]
    have hself : (h.setSlave id (headed (h.s id) buffer)).s id = headed (h.s id) buffer := setSlave_self _ _ _
    have hstatus' : ((h.setSlave id (headed (h.s id) buffer)).s id).status ≠ .DOWN := by
      rw [hself]
      exact nofun
    have hqueue' : ((h.setSlave id (headed (h.s id) buffer)).s id).queue = none := by
      rw [hself]
      exact hqueue
    obtain ⟨s', hq⟩ := content_quiet found hstatus' hqueue' (buffer.drop (4 - (h.s id).read))
    use s'
    apply Quiet.of_setSlave _ hstatus hq
    rfl

theorem quiet_self (hqueue : (h.s id).queue = none) :
  Quiet h id [] h (h.s id)
  := by
  constructor
  · exact (setSlave_eq_self h id).symm
  · rfl
  · exact fun hdown => hdown
  · exact hqueue
  · exact nofun

theorem shaken_quiet (hstatus : (h.s id).status = .HANDSHAKE) :
  Quiet h id [] (h.setSlave id (shaken (h.s id))) (shaken (h.s id))
  := by
  constructor
  · rfl
  · rfl
  · exact fun hdown => nomatch hstatus.symm.trans hdown
  · rfl
  · exact nofun

theorem flush_of_none {s : Slave β} (hqueue : s.queue = none) :
  flush data s = []
  := by
  rw [flush, hqueue]
  rfl

theorem checkId_quiet (hstatus : (h.s id).status = .HANDSHAKE) (hqueue : (h.s id).queue = none)
    (buffer : List UInt8) :
  ∃ s', Quiet h id (checkId data found h id buffer).1 (checkId data found h id buffer).2.1 s'
  := by
  cases buffer with
  | nil => exact ⟨_, quiet_self hqueue⟩
  | cons remote_id buffer =>
      by_cases hid : remote_id.toNat = id
      · rcases eq_or_ne buffer [] with rfl | hmore
        · rw [checkId_end hid, flush_of_none hqueue]
          exact ⟨_, shaken_quiet hstatus⟩
        · rw [checkId_header hid hmore, flush_of_none hqueue]
          have hself : (h.setSlave id (shaken (h.s id))).s id = shaken (h.s id) := setSlave_self _ _ _
          have hstatus' : ((h.setSlave id (shaken (h.s id))).s id).status ≠ .DOWN := by
            rw [hself]
            exact nofun
          have hqueue' : ((h.setSlave id (shaken (h.s id))).s id).queue = none := by
            rw [hself]
            rfl
          obtain ⟨s', hq⟩ := header_quiet found hstatus' hqueue' buffer
          exact ⟨s', (shaken_quiet hstatus).trans hq⟩
      · rw [checkId_wrong hid]
        exact closeHarbor_quiet h id

variable (data found) in
theorem turn_quiet (hqueue : (h.s id).queue = none) (buffer : List UInt8) :
  ∃ s', Quiet h id (turn data found h id buffer).1 (turn data found h id buffer).2.1 s'
  := by
  unfold turn
  split
  · next hstatus => exact checkId_quiet hstatus hqueue buffer
  · next hstatus => exact header_quiet found (by rw [hstatus]; exact nofun) hqueue buffer
  · next hstatus => exact content_quiet found (by rw [hstatus]; exact nofun) hqueue buffer
  · exact ⟨_, quiet_self hqueue⟩

variable (data found) in
theorem pushLoop_quiet (hqueue : (h.s id).queue = none) (n : ℕ) (buffer : List UInt8) :
  ∃ s', Quiet h id (pushLoop data found id n h buffer).1 (pushLoop data found id n h buffer).2 s'
  := by
  induction n generalizing h buffer with
  | zero => exact ⟨_, quiet_self hqueue⟩
  | succ n ih =>
      obtain ⟨s', hq⟩ := turn_quiet data found hqueue buffer
      rw [pushLoop]
      split
      · next out h' heq =>
          rw [heq] at hq
          exact ⟨s', hq⟩
      · next out h' rest heq =>
          rw [heq] at hq
          dsimp only at hq
          have hqueue' : (h'.s id).queue = none := by
            rw [hq.harbor, setSlave_self]
            exact hq.queue
          obtain ⟨s'', hq'⟩ := ih hqueue' rest
          exact ⟨s'', hq.trans hq'⟩

/-- Nothing that concerns a name is put out. -/
theorem Quiet.about {h' : Harbor β} {s' : Slave β} (hq : Quiet h id out h' s') :
  about origin x out = []
  := by
  apply about_of_name_ne
  intro o ho
  rw [hq.out origin o ho]
  exact nofun

theorem Quiet.shifts {r : List (Output β) × Harbor β} {s' : Slave β} (hqueue : (h.s id).queue = none)
    (hq : Quiet h id r.1 r.2 s') :
  Shifts origin x h r id s'
  := by
  constructor
  · exact hq.harbor
  · constructor
    · exact fun _ => hq.fd
    · exact hq.down
    · apply Moved.kept
      · rw [queued_of_none hq.queue, queued_of_none hqueue]
      · exact hq.about

variable (found) in
/-- What waits for a slave is sent when its id has arrived. -/
theorem pushLoop_handshake_shifts (remote_id : UInt8) (tail : List UInt8)
    (hstatus : (h.s id).status = .HANDSHAKE) (hfd : (h.s id).fd ≠ 0)
    (hsend : ∀ m ∈ queued origin x (h.s id), Sendable data m.buffer) :
  ∃ s', Shifts origin x h (pushLoop data found id (tail.length + 3) h (remote_id :: tail)) id s'
  := by
  by_cases hid : remote_id.toNat = id
  · obtain ⟨n, -, hloop⟩ := pushLoop_shaken data found hstatus hid tail
    have hself : (h.setSlave id (shaken (h.s id))).s id = shaken (h.s id) := setSlave_self _ _ _
    have hqueue : ((h.setSlave id (shaken (h.s id))).s id).queue = none := by
      rw [hself]
      rfl
    obtain ⟨s', hq⟩ := pushLoop_quiet data found hqueue n tail
    have hfd' : s'.fd = (h.s id).fd := by
      rw [hq.fd, hself]
      rfl
    rw [hloop]
    use s'
    constructor
    · dsimp only
      rw [hq.harbor, setSlave_setSlave]
    · constructor
      · exact fun _ => hfd'
      · exact fun hdown => nomatch hstatus.symm.trans hdown
      · apply Moved.sent
        · rwa [hfd']
        · exact queued_of_none hq.queue
        · rw [about_append, hq.about, List.append_nil, about_flush hsend, hfd']
  · rw [pushLoop, turn_handshake hstatus, checkId_wrong hid]
    obtain ⟨s', hq⟩ := closeHarbor_quiet h id
    use s'
    constructor
    · exact hq.harbor
    · constructor
      · exact fun _ => hq.fd
      · exact hq.down
      · have hs' : s' = { h.s id with status := .DOWN, queue := none } := by
          have hharbor := congrArg (fun h => h.s id) hq.harbor
          dsimp only [closeHarbor] at hharbor
          rw [setSlave_self, setSlave_self] at hharbor
          exact hharbor.symm
        apply Moved.dropped
        · rw [hs']
        · exact queued_of_none hq.queue
        · exact hq.about

theorem pushLoop_of_turn {buffer : List UInt8} (hturn : turn data found h id buffer = ([], h, none)) (n : ℕ) :
  pushLoop data found id (n + 1) h buffer = ([], h)
  := by rw [pushLoop, hturn]

/-- Data from a socket. -/
theorem pushSocketData_shifts (hs : h.Sound)
    (hsend : ∀ id, (h.s id).status ≠ .DOWN → ∀ m ∈ queued origin x (h.s id), Sendable data m.buffer)
    (fd : ℕ) (buffer : List UInt8) :
  ∃ id s', Shifts origin x h (pushSocketData data found h fd buffer) id s'
  := by
  unfold pushSocketData
  split
  · exact shifts_self about_nil
  · next id hid =>
      have hquiet (hqueue : (h.s id).queue = none) :
          ∃ i s', Shifts origin x h (pushLoop data found id (buffer.length + 2) h buffer) i s' := by
        obtain ⟨s', hq⟩ := pushLoop_quiet data found hqueue (buffer.length + 2) buffer
        exact ⟨id, s', hq.shifts hqueue⟩
      have hnothing (hturn : turn data found h id buffer = ([], h, none)) :
          ∃ i s', Shifts origin x h (pushLoop data found id (buffer.length + 2) h buffer) i s' := by
        have hloop : pushLoop data found id (buffer.length + 2) h buffer = ([], h) :=
          pushLoop_of_turn hturn (buffer.length + 1)
        rw [hloop]
        exact shifts_self about_nil
      cases hstatus : (h.s id).status with
      | WAIT =>
          apply hnothing
          rw [turn, hstatus]
      | HANDSHAKE =>
          cases buffer with
          | nil =>
              apply hnothing
              rw [turn_handshake hstatus, checkId]
          | cons remote_id tail =>
              have hfd := (hs id).connected (by rw [hstatus]; exact nofun)
              obtain ⟨s', hshifts⟩ := pushLoop_handshake_shifts found remote_id tail hstatus hfd
                (hsend id (by rw [hstatus]; exact nofun))
              exact ⟨id, s', hshifts⟩
      | HEADER => exact hquiet ((hs id).queue (.inl hstatus))
      | CONTENT => exact hquiet ((hs id).queue (.inr hstatus))
      | DOWN => exact hnothing (turn_of_down hstatus buffer)

variable (data) in
/-- A message that is not for the name is sent to a handle. -/
theorem remoteSendHandle_shifts {buffer : β} (hother : origin buffer ≠ some x) (source destination : ℕ)
    (type : UInt8) (session : Session) :
  ∃ id s', Shifts origin x h (remoteSendHandle data h source destination type session buffer) id s'
  := by
  unfold remoteSendHandle
  dsimp only
  split_ifs with hlocal hwait hdown
  · apply shifts_self
    apply about_of_name_ne
    intro o ho
    obtain rfl := List.mem_singleton.mp ho
    exact hother
  · apply shifts_self
    apply about_of_name_ne
    intro o ho
    obtain rfl := List.mem_singleton.mp ho
    exact nofun
  · refine ⟨_, _, ⟨rfl, ?_⟩⟩
    constructor
    · exact fun _ => rfl
    · exact fun hd => absurd hd hdown
    · apply Moved.kept
      · have hnot : ¬decide (origin buffer = some x) = true := by rwa [decide_eq_true_eq]
        rw [queued, Option.getD_some, List.filter_append, List.filter_cons, if_neg hnot, List.filter_nil,
          List.append_nil]
        rfl
      · exact about_nil
  · apply shifts_self
    apply about_of_name_ne
    intro o ho
    rwa [name_of_mem_sendRemote ho]

/-- A socket of another node. -/
theorem commandSA_shifts (hs : h.Sound)
    (hsend : ∀ id, (h.s id).status ≠ .DOWN → ∀ m ∈ queued origin x (h.s id), Sendable data m.buffer)
    (connects : Bool) (fd id : ℕ) :
  ∃ id' s', Shifts origin x h (commandSA data h connects fd id) id' s'
  := by
  have hout : about origin x ([.start fd, .handshake fd (UInt8.ofNat h.id)] : List (Output β)) = [] := by
    apply about_of_name_ne
    intro o ho
    rcases List.mem_cons.mp ho with rfl | ho
    · exact nofun
    · obtain rfl := List.mem_singleton.mp ho
      exact nofun
  unfold commandSA
  dsimp only
  split_ifs with hbad hexists hconnects
  · exact shifts_self about_nil
  · exact shifts_self about_nil
  · refine ⟨_, _, ⟨rfl, ?_⟩⟩
    constructor
    · exact fun hfd => absurd (not_not.mp hexists) hfd
    · exact fun hdown => nomatch ((hs id).wait.mp (not_not.mp hexists)).symm.trans hdown
    · exact .kept rfl hout
  · have hup : (h.s id).status ≠ .DOWN := by
      rw [(hs id).wait.mp (not_not.mp hexists)]
      exact nofun
    rw [dispatchQueue_eq, setSlave_self, setSlave_setSlave]
    refine ⟨_, _, ⟨rfl, ?_⟩⟩
    constructor
    · exact fun hfd => absurd (not_not.mp hexists) hfd
    · exact fun hdown => absurd hdown hup
    · apply Moved.sent
      · exact fun hzero => hbad (.inl hzero)
      · rfl
      · rw [about_append, hout, List.nil_append]
        exact about_flush (hsend id hup)

end

/-! ### Where the messages to a name are -/

/-- The messages to a name that is bound have been delivered up to some of them, which wait for the slave. -/
structure Line (origin : β → Option Name) (h : Harbor β) (out : List (Output β)) (sent : List (Sent β))
    (x : Name) (handle : ℕ) (done waiting : List (Sent β)) : Prop where
  sent : sent = done ++ waiting
  out : about origin x out = done.map (delivery h handle)
  queue : queued origin x (h.s (handle >>> HANDLE_REMOTE_SHIFT)) = waiting.map (Sent.queued handle)
  fd : handle >>> HANDLE_REMOTE_SHIFT ≠ h.id → (h.s (handle >>> HANDLE_REMOTE_SHIFT)).fd = 0 → done = []

/-- What has been sent to a name, before and after it is bound. -/
inductive Named (data : β → List UInt8) (origin : β → Option Name) (h : Harbor β) (out : List (Output β))
    (sent : List (Sent β)) (x : Name) : Prop
  | unbound (hvalue : (h.search x).value = 0)
      (hqueue : (h.search x).queue.getD [] = sent.map (Sent.queued 0))
      (hslaves : ∀ i, queued origin x (h.s i) = []) (hout : about origin x out = [])
  | bound (hvalue : (h.search x).value ≠ 0) (hqueue : (h.search x).queue = none)
      (hslaves : ∀ i, i ≠ (h.search x).value >>> HANDLE_REMOTE_SHIFT ∨ i = h.id →
        queued origin x (h.s i) = [])
      (hsend : (h.search x).value >>> HANDLE_REMOTE_SHIFT ≠ h.id → ∀ m ∈ sent, Sendable data m.buffer)
      (hline : (h.search x).value >>> HANDLE_REMOTE_SHIFT = h.id ∨
          (h.s ((h.search x).value >>> HANDLE_REMOTE_SHIFT)).status ≠ .DOWN →
        ∃ done waiting, Line origin h out sent x (h.search x).value done waiting)

section

variable {h' : Harbor β} {out' : List (Output β)} {sent : List (Sent β)}

/-- What waits for a slave that is not down can be sent to it. -/
theorem Named.sendable (hnamed : Named data origin h out sent x) {id : ℕ} (hup : (h.s id).status ≠ .DOWN) :
  ∀ m ∈ queued origin x (h.s id), Sendable data m.buffer
  := by
  intro m hm
  cases hnamed with
  | unbound hvalue hqueue hslaves hout =>
      rw [hslaves id] at hm
      contradiction
  | bound hvalue hqueue hslaves hsend hline =>
      rcases Decidable.em (id = (h.search x).value >>> HANDLE_REMOTE_SHIFT ∧ id ≠ h.id) with hid | hid
      · obtain ⟨rfl, hremote⟩ := hid
        obtain ⟨done, waiting, hline⟩ := hline (.inr hup)
        rw [hline.queue] at hm
        obtain ⟨m', hm', rfl⟩ := List.mem_map.mp hm
        apply hsend hremote m'
        rw [hline.sent]
        exact List.mem_append_right _ hm'
      · rw [hslaves id (by tauto)] at hm
        contradiction

/-- The harbor is changed where it does not matter for the name. -/
theorem Named.frame (hnamed : Named data origin h out sent x) (hsearch : h'.search x = h.search x)
    (hs : h'.s = h.s) (hid : h'.id = h.id) (hout : about origin x out' = []) :
  Named data origin h' (out ++ out') sent x
  := by
  have habout : about origin x (out ++ out') = about origin x out := by
    rw [about_append, hout, List.append_nil]
  have hdelivery (handle : ℕ) : delivery h' handle = delivery h handle := by
    funext m
    rw [delivery, delivery, hs, hid]
  cases hnamed with
  | unbound hvalue hqueue hslaves hnone =>
      apply Named.unbound
      · rwa [hsearch]
      · rwa [hsearch]
      · rwa [hs]
      · rwa [habout]
  | bound hvalue hqueue hslaves hsend hline =>
      apply Named.bound
      · rwa [hsearch]
      · rwa [hsearch]
      · rwa [hsearch, hs, hid]
      · rwa [hsearch, hid]
      · rw [hsearch, hs, hid]
        intro hup
        obtain ⟨done, waiting, hline⟩ := hline hup
        refine ⟨done, waiting, ?_⟩
        constructor
        · exact hline.sent
        · rw [habout, hline.out, hdelivery]
        · rw [hs, hline.queue]
        · rw [hs, hid]
          exact hline.fd

/-- Where nothing waits for a name, nothing is sent to it. -/
theorem Moved.nothing {s s' : Slave β} (hmoved : Moved origin x s s' out) (hqueue : queued origin x s = []) :
  queued origin x s' = [] ∧ about origin x out = []
  := by
  cases hmoved with
  | kept hkept hout => exact ⟨hkept.trans hqueue, hout⟩
  | sent hfd hempty hout =>
      rw [hqueue] at hout
      exact ⟨hempty, hout⟩
  | dropped hstatus hempty hout => exact ⟨hempty, hout⟩

/-- Messages are delivered to a handle as before if its slave keeps its socket, or if it is here. -/
theorem delivery_setSlave {id handle : ℕ} {s' : Slave β}
    (hfd : handle >>> HANDLE_REMOTE_SHIFT = h.id ∨ id ≠ handle >>> HANDLE_REMOTE_SHIFT ∨
      s'.fd = (h.s id).fd) :
  delivery (h.setSlave id s') handle = delivery h handle
  := by
  funext m
  unfold delivery
  split_ifs with hlocal hlocal' hlocal'
  · rfl
  · contradiction
  · contradiction
  · rcases eq_or_ne (handle >>> HANDLE_REMOTE_SHIFT) id with hid | hne
    · have hsame : s'.fd = (h.s id).fd := by
        rcases hfd with hfd | hfd | hfd
        · contradiction
        · exact absurd hid.symm hfd
        · exact hfd
      rw [hid, setSlave_self, hsame]
    · rw [setSlave_of_ne hne]

/-- A line stays as it is if another slave is changed, or if the handle is here. -/
theorem Line.setSlave {handle id : ℕ} {done waiting : List (Sent β)} {s' : Slave β}
    (hline : Line origin h out sent x handle done waiting)
    (hid : id ≠ handle >>> HANDLE_REMOTE_SHIFT ∨ handle >>> HANDLE_REMOTE_SHIFT = h.id)
    (hqueue : queued origin x s' = queued origin x (h.s id)) (hout : about origin x out' = []) :
  Line origin (h.setSlave id s') (out ++ out') sent x handle done waiting
  := by
  constructor
  · exact hline.sent
  · rw [about_append, hout, List.append_nil, hline.out, delivery_setSlave (by tauto)]
  · rcases eq_or_ne (handle >>> HANDLE_REMOTE_SHIFT) id with heq | hne
    · rw [heq, setSlave_self, hqueue, ← heq]
      exact hline.queue
    · rw [setSlave_of_ne hne]
      exact hline.queue
  · intro hremote
    have hne : handle >>> HANDLE_REMOTE_SHIFT ≠ id := by
      rcases hid with hid | hid
      · exact hid.symm
      · exact absurd hid hremote
    rw [setSlave_of_ne hne]
    exact hline.fd hremote

/-- What waits for the slave is sent when it is connected. -/
theorem Line.moves {handle : ℕ} {done waiting : List (Sent β)} {s' : Slave β}
    (hline : Line origin h out sent x handle done waiting)
    (hremote : handle >>> HANDLE_REMOTE_SHIFT ≠ h.id)
    (hmoves : Moves origin x (h.s (handle >>> HANDLE_REMOTE_SHIFT)) s' out') (hup : s'.status ≠ .DOWN) :
  ∃ done waiting, Line origin (h.setSlave (handle >>> HANDLE_REMOTE_SHIFT) s') (out ++ out') sent x handle
    done waiting
  := by
  have hdone : done.map (delivery (h.setSlave (handle >>> HANDLE_REMOTE_SHIFT) s') handle) =
      done.map (delivery h handle) := by
    rcases eq_or_ne (h.s (handle >>> HANDLE_REMOTE_SHIFT)).fd 0 with hzero | hfd
    · rw [hline.fd hremote hzero, List.map_nil, List.map_nil]
    · rw [delivery_setSlave (.inr (.inr (hmoves.fd hfd)))]
  cases hmoves.moved with
  | kept hkept hout =>
      refine ⟨done, waiting, ?_⟩
      constructor
      · exact hline.sent
      · rw [about_append, hout, List.append_nil, hdone, hline.out]
      · rw [setSlave_self, hkept, hline.queue]
      · intro _ hzero
        rw [setSlave_self] at hzero
        apply hline.fd hremote
        by_contra hfd
        exact hfd ((hmoves.fd hfd).symm.trans hzero)
  | sent hfd hempty hout =>
      refine ⟨done ++ waiting, [], ?_⟩
      constructor
      · rw [List.append_nil, hline.sent]
      · rw [about_append, hout, hline.out, hline.queue, List.map_append, hdone, List.map_map]
        congr 1
        apply List.map_congr_left
        intro m _
        have hone : delivery (h.setSlave (handle >>> HANDLE_REMOTE_SHIFT) s') handle m =
            .remote ((h.setSlave (handle >>> HANDLE_REMOTE_SHIFT) s').s (handle >>> HANDLE_REMOTE_SHIFT)).fd
              m.buffer (m.header handle) := if_neg hremote
        rw [hone, setSlave_self]
        rfl
      · rw [setSlave_self, hempty]
        rfl
      · intro _ hzero
        rw [setSlave_self] at hzero
        exact absurd hzero hfd
  | dropped hstatus hempty hout => contradiction

/-- A slave is changed. -/
theorem Named.shifts {r : List (Output β) × Harbor β} {id : ℕ} {s' : Slave β}
    (hnamed : Named data origin h out sent x) (hshifts : Shifts origin x h r id s') :
  Named data origin r.2 (out ++ r.1) sent x
  := by
  obtain ⟨out', h'⟩ := r
  obtain ⟨rfl, hmoves⟩ := hshifts
  have hmoves : Moves origin x (h.s id) s' out' := hmoves
  cases hnamed with
  | unbound hvalue hqueue hslaves hnone =>
      obtain ⟨hempty, hout⟩ := hmoves.moved.nothing (hslaves id)
      apply Named.unbound
      · exact hvalue
      · exact hqueue
      · intro i
        rcases eq_or_ne i id with rfl | hne
        · rwa [setSlave_self]
        · rw [setSlave_of_ne hne]
          exact hslaves i
      · rw [about_append, hnone, hout]
        rfl
  | bound hvalue hqueue hslaves hsend hline =>
      apply Named.bound
      · exact hvalue
      · exact hqueue
      · intro i hi
        rcases eq_or_ne i id with rfl | hne
        · rw [setSlave_self]
          exact (hmoves.moved.nothing (hslaves i hi)).1
        · rw [setSlave_of_ne hne]
          exact hslaves i hi
      · exact hsend
      · intro hup
        have hup : (h.search x).value >>> HANDLE_REMOTE_SHIFT = h.id ∨
            ((h.setSlave id s').s ((h.search x).value >>> HANDLE_REMOTE_SHIFT)).status ≠ .DOWN := hup
        rcases Decidable.em (id = (h.search x).value >>> HANDLE_REMOTE_SHIFT ∧ id ≠ h.id) with hid | hid
        · obtain ⟨rfl, hremote⟩ := hid
          have hup' : s'.status ≠ .DOWN := by
            rcases hup with hlocal | hup
            · contradiction
            · rwa [setSlave_self] at hup
          obtain ⟨done, waiting, hline⟩ := hline (.inr fun hdown => hup' (hmoves.down hdown))
          exact hline.moves hremote hmoves hup'
        · have hnone : queued origin x (h.s id) = [] := hslaves id (by tauto)
          obtain ⟨hempty, hout⟩ := hmoves.moved.nothing hnone
          have hother : id ≠ (h.search x).value >>> HANDLE_REMOTE_SHIFT ∨
              (h.search x).value >>> HANDLE_REMOTE_SHIFT = h.id := by
            rcases eq_or_ne id ((h.search x).value >>> HANDLE_REMOTE_SHIFT) with heq | hne
            · right
              by_contra hremote
              exact hid ⟨heq, heq ▸ hremote⟩
            · exact .inl hne
          have hup' : (h.search x).value >>> HANDLE_REMOTE_SHIFT = h.id ∨
              (h.s ((h.search x).value >>> HANDLE_REMOTE_SHIFT)).status ≠ .DOWN := by
            rcases hother with hne | hlocal
            · refine hup.imp_right fun hup => ?_
              rwa [← setSlave_of_ne hne.symm s']
            · exact .inl hlocal
          obtain ⟨done, waiting, hline⟩ := hline hup'
          exact ⟨done, waiting, hline.setSlave hother (hempty.trans hnone.symm) hout⟩

end

/-! ### Sending -/

section

variable {sent : List (Sent β)} {y : Name}

@[simp]
theorem search_setName (h : Harbor β) (x : Name) (node : KeyValue β) :
  (h.setName x node).search x = node
  := by
  have hmap : (h.setName x node).map x = some node := Function.update_self _ _ _
  rw [search, hmap, Option.getD_some]

theorem search_setName_of_ne (hne : y ≠ x) (node : KeyValue β) :
  (h.setName x node).search y = h.search y
  := by
  have hmap : (h.setName x node).map y = h.map y := Function.update_of_ne hne _ _
  rw [search, hmap, search]

theorem Sent.header_zero (m : Sent β) :
  m.header 0 = ⟨m.source, m.type.toNat <<< HANDLE_REMOTE_SHIFT, uint32 m.session.val⟩
  := by
  rw [Sent.header, Nat.zero_and, Nat.or_zero]

/-- A message is sent to a name that is not bound. -/
theorem Named.wait (hnamed : Named data origin h out sent x) (hvalue : (h.search x).value = 0) (m : Sent β)
    (query : Send) :
  Named data origin
    (h.setName x { h.search x with queue := some ((h.search x).queue.getD [] ++ [m.queued 0]) })
    (out ++ [.send query]) (sent ++ [m]) x
  := by
  cases hnamed with
  | unbound _ hqueue hslaves hout =>
      apply Named.unbound
      · rwa [search_setName]
      · rw [search_setName, Option.getD_some, hqueue, List.map_append]
        rfl
      · exact hslaves
      · rw [about_append, hout, about_of_name_ne]
        · rfl
        · intro o ho
          obtain rfl := List.mem_singleton.mp ho
          exact nofun
  | bound hne => contradiction

theorem about_singleton {o : Output β} (ho : o.name origin = some x) :
  about origin x [o] = [o]
  := by
  apply about_of_name
  intro o' ho'
  obtain rfl := List.mem_singleton.mp ho'
  exact ho

/-- A message to a name that is bound is put out after the others. -/
theorem Line.deliver {handle : ℕ} {done : List (Sent β)} {m : Sent β}
    (hline : Line origin h out sent x handle done []) (horigin : origin m.buffer = some x)
    (hfd : handle >>> HANDLE_REMOTE_SHIFT ≠ h.id → (h.s (handle >>> HANDLE_REMOTE_SHIFT)).fd ≠ 0) :
  Line origin h (out ++ [delivery h handle m]) (sent ++ [m]) x handle (done ++ [m]) []
  := by
  have hname : (delivery h handle m).name origin = some x := by
    unfold delivery
    split_ifs
    · exact horigin
    · exact horigin
  constructor
  · rw [hline.sent, List.append_nil, List.append_nil]
  · rw [about_append, hline.out, about_singleton hname, List.map_append]
    rfl
  · exact hline.queue
  · exact fun hremote hzero => absurd hzero (hfd hremote)

/-- A message to a name that is bound waits after the others. -/
theorem Line.wait {handle : ℕ} {done waiting : List (Sent β)} {m : Sent β}
    (hline : Line origin h out sent x handle done waiting) (horigin : origin m.buffer = some x) :
  Line origin (h.setSlave (handle >>> HANDLE_REMOTE_SHIFT) { h.s (handle >>> HANDLE_REMOTE_SHIFT) with
      queue := some ((h.s (handle >>> HANDLE_REMOTE_SHIFT)).queue.getD [] ++ [m.queued handle]) })
    out (sent ++ [m]) x handle done (waiting ++ [m])
  := by
  constructor
  · rw [hline.sent, List.append_assoc]
  · rw [hline.out]
    congr 1
    symm
    apply delivery_setSlave
    exact .inr (.inr rfl)
  · have hone : [m.queued handle].filter (fun m => decide (origin m.buffer = some x)) = [m.queued handle] := by
      apply List.filter_eq_self.mpr
      intro m' hm'
      obtain rfl := List.mem_singleton.mp hm'
      exact decide_eq_true horigin
    have hqueue := hline.queue
    rw [queued] at hqueue
    rw [setSlave_self, queued, Option.getD_some, List.filter_append, hqueue, hone, List.map_append]
    rfl
  · rw [setSlave_self]
    exact hline.fd

/-- A message is sent to a name that is bound. -/
theorem Named.sendHandle (hs : h.Sound) (hnamed : Named data origin h out sent x)
    (hvalue : (h.search x).value ≠ 0) (m : Sent β) (horigin : origin m.buffer = some x)
    (hsendable : (h.search x).value >>> HANDLE_REMOTE_SHIFT ≠ h.id → Sendable data m.buffer) :
  Named data origin
    (remoteSendHandle data h m.source (h.search x).value m.type m.session m.buffer).2
    (out ++ (remoteSendHandle data h m.source (h.search x).value m.type m.session m.buffer).1)
    (sent ++ [m]) x
  := by
  cases hnamed with
  | unbound hzero => contradiction
  | bound _ hqueue hslaves hsend hline =>
      have hsend' : (h.search x).value >>> HANDLE_REMOTE_SHIFT ≠ h.id →
          ∀ m' ∈ sent ++ [m], Sendable data m'.buffer := by
        intro hremote m' hm'
        rcases List.mem_append.mp hm' with hm' | hm'
        · exact hsend hremote m' hm'
        · obtain rfl := List.mem_singleton.mp hm'
          exact hsendable hremote
      have hslave := hs ((h.search x).value >>> HANDLE_REMOTE_SHIFT)
      unfold remoteSendHandle
      dsimp only
      split_ifs with hlocal hwait hdown
      · apply Named.bound hvalue hqueue hslaves hsend'
        intro _
        obtain ⟨done, waiting, hline⟩ := hline (.inl hlocal)
        have hnone : waiting = [] := by
          have hown := hline.queue
          rw [hslaves _ (.inr hlocal)] at hown
          exact List.map_eq_nil_iff.mp hown.symm
        subst hnone
        have hdelivery : delivery h (h.search x).value m =
            .deliver m.source (h.search x).value (m.type.toNat ||| PTYPE_TAG_DONTCOPY) m.session.val m.buffer :=
          if_pos hlocal
        rw [← hdelivery]
        exact ⟨_, _, hline.deliver horigin fun hremote => absurd hlocal hremote⟩
      · -- a slave that is waited for is not down
        rcases hwait with hfd | hshake
        · cases (hslave.wait.mp hfd).symm.trans hdown
        · cases hshake.symm.trans hdown
      · apply Named.bound
        · exact hvalue
        · exact hqueue
        · intro i hi
          have hne : i ≠ (h.search x).value >>> HANDLE_REMOTE_SHIFT := by
            rcases hi with hne | rfl
            · exact hne
            · exact fun heq => hlocal heq.symm
          rw [setSlave_of_ne hne]
          exact hslaves i hi
        · exact hsend'
        · intro _
          obtain ⟨done, waiting, hline⟩ := hline (.inr hdown)
          rw [List.append_nil]
          exact ⟨_, _, hline.wait horigin⟩
      · apply Named.bound hvalue hqueue hslaves hsend'
        intro hup
        obtain ⟨done, waiting, hline⟩ := hline hup
        rw [not_or] at hwait
        have hnone : waiting = [] := by
          have hempty : (h.s ((h.search x).value >>> HANDLE_REMOTE_SHIFT)).queue = none := by
            apply hslave.queue
            rcases hup with hlocal' | hup
            · contradiction
            · cases hstatus : (h.s ((h.search x).value >>> HANDLE_REMOTE_SHIFT)).status with
              | WAIT => exact absurd (hslave.wait.mpr hstatus) hwait.1
              | HANDSHAKE => exact absurd hstatus hwait.2
              | HEADER => exact .inl rfl
              | CONTENT => exact .inr rfl
              | DOWN => exact absurd hstatus hup
          have hown := hline.queue
          rw [queued_of_none hempty] at hown
          exact List.map_eq_nil_iff.mp hown.symm
        subst hnone
        have hdelivery : delivery h (h.search x).value m =
            .remote (h.s ((h.search x).value >>> HANDLE_REMOTE_SHIFT)).fd m.buffer
              (m.header (h.search x).value) := if_neg hlocal
        rw [sendRemote_of_sendable (hsendable hlocal)]
        have hdeliver := hline.deliver horigin fun _ => hwait.1
        rw [hdelivery] at hdeliver
        exact ⟨_, _, hdeliver⟩

/-! ### Binding -/

/-- The queue of a name has been emptied, as the name is bound to a handle. -/
structure Emptied (origin : β → Option Name) (h : Harbor β) (sent : List (Sent β)) (x : Name) (handle : ℕ)
    (r : List (Output β) × Harbor β) : Prop where
  map : r.2.map = h.map
  others : ∀ y, y ≠ x → ∃ id s', Shifts origin y h r id s'
  out : about origin x r.1 = sent.map (delivery r.2 handle)
  slaves : ∀ i, queued origin x (r.2.s i) = []
  fd : handle >>> HANDLE_REMOTE_SHIFT ≠ r.2.id → (r.2.s (handle >>> HANDLE_REMOTE_SHIFT)).fd = 0 → sent = []

theorem shiftRight_type (type : UInt8) :
  (type.toNat <<< HANDLE_REMOTE_SHIFT) >>> HANDLE_REMOTE_SHIFT = type.toNat
  := Nat.shiftLeft_shiftRight _ _

theorem toInt_uint32 (session : Session) :
  LittleEndian.toInt (uint32 session.val) = session.val
  := by
  have hnonneg : 0 ≤ session.val % 2 ^ 32 := Int.emod_nonneg _ (by decide)
  have hmod : (session.val % 2 ^ 32).bmod (2 ^ 32) = session.val.bmod (2 ^ 32) :=
    Int.emod_bmod session.val (2 ^ 32)
  rw [LittleEndian.toInt, uint32, Int.toNat_of_nonneg hnonneg, hmod]
  apply Int.bmod_eq_of_le
  · exact session.property.1
  · exact session.property.2

/-- The messages are sent to a handle of this node. -/
theorem dispatchNameQueue_local (hs : h.Sound) {node : KeyValue β}
    (hslave : h.slave >>> HANDLE_REMOTE_SHIFT = h.id) (hlocal : node.value >>> HANDLE_REMOTE_SHIFT = h.id)
    (hfd : (h.s h.id).fd = 0) :
  dispatchNameQueue data h node =
    (((h.s h.id).queue.getD [] ++ node.queue.getD []).map fun m =>
      .deliver m.header.source node.value
        ((m.header.destination >>> HANDLE_REMOTE_SHIFT) ||| PTYPE_TAG_DONTCOPY)
        (LittleEndian.toInt m.header.session) m.buffer,
      h.setSlave h.id { h.s h.id with queue := none })
  := by
  have hup : (h.s h.id).status ≠ .DOWN := by
    rw [(hs h.id).wait.mp hfd]
    exact nofun
  unfold dispatchNameQueue
  dsimp only
  rw [hlocal, if_pos hfd, if_neg hup, if_pos hslave.symm]

/-- They are sent to another node. -/
theorem dispatchNameQueue_remote {node : KeyValue β}
    (hfd : (h.s (node.value >>> HANDLE_REMOTE_SHIFT)).fd ≠ 0) :
  dispatchNameQueue data h node =
    ((node.queue.getD []).flatMap fun m => sendRemote data (h.s (node.value >>> HANDLE_REMOTE_SHIFT)).fd
      m.buffer { m.header with destination := m.header.destination ||| (node.value &&& HANDLE_MASK) }, h)
  := if_neg hfd

theorem filter_queued (horigin : ∀ m ∈ sent, origin m.buffer = some x) (handle : ℕ) :
  (sent.map (Sent.queued handle)).filter (fun m => decide (origin m.buffer = some x)) =
    sent.map (Sent.queued handle)
  := by
  apply List.filter_eq_self.mpr
  intro m hm
  obtain ⟨m', hm', rfl⟩ := List.mem_map.mp hm
  exact decide_eq_true (horigin m' hm')

theorem filter_queued_of_ne (hne : y ≠ x) (horigin : ∀ m ∈ sent, origin m.buffer = some x) (handle : ℕ) :
  (sent.map (Sent.queued handle)).filter (fun m => decide (origin m.buffer = some y)) = []
  := by
  apply List.filter_eq_nil_iff.mpr
  intro m hm
  obtain ⟨m', hm', rfl⟩ := List.mem_map.mp hm
  have hm' : origin m'.buffer = some x := horigin m' hm'
  rw [decide_eq_true_eq]
  intro hy
  exact hne (Option.some.inj (hy.symm.trans hm'))

theorem about_map {queue : List (HarborMsg β)} {f : HarborMsg β → Output β}
    (hf : ∀ m, (f m).name origin = origin m.buffer) :
  about origin x (queue.map f) = (queue.filter fun m => origin m.buffer = some x).map f
  := by
  rw [about, List.filter_map]
  congr 2
  funext m
  exact congrArg (fun o => decide (o = some x)) (hf m)

theorem emptied_local (hs : h.Sound) (node : KeyValue β)
    (hslave : h.slave >>> HANDLE_REMOTE_SHIFT = h.id) (hlocal : node.value >>> HANDLE_REMOTE_SHIFT = h.id)
    (hfd : (h.s h.id).fd = 0) (horigin : ∀ m ∈ sent, origin m.buffer = some x)
    (hqueue : node.queue.getD [] = sent.map (Sent.queued 0))
    (hslaves : ∀ i, queued origin x (h.s i) = []) (hown : ∀ y, queued origin y (h.s h.id) = []) :
  Emptied origin h sent x node.value (dispatchNameQueue data h node)
  := by
  rw [dispatchNameQueue_local hs hslave hlocal hfd]
  constructor
  · rfl
  · intro y hne
    refine ⟨_, _, ⟨rfl, ?_⟩⟩
    constructor
    · exact fun _ => rfl
    · exact fun hdown => hdown
    · apply Moved.kept
      · rw [hown y]
        rfl
      · dsimp only
        rw [about_map fun _ => rfl, List.filter_append, hqueue, filter_queued_of_ne hne horigin]
        have hnone := hown y
        rw [queued] at hnone
        rw [hnone]
        rfl
  · have hnone := hown x
    rw [queued] at hnone
    dsimp only
    rw [about_map fun _ => rfl, List.filter_append, hnone, hqueue, filter_queued horigin, List.nil_append,
      List.map_map]
    apply List.map_congr_left
    intro m _
    have hdelivery : delivery (h.setSlave h.id { h.s h.id with queue := none }) node.value m =
        .deliver m.source node.value (m.type.toNat ||| PTYPE_TAG_DONTCOPY) m.session.val m.buffer :=
      if_pos hlocal
    rw [hdelivery, Function.comp_apply, Sent.queued, Sent.header_zero]
    dsimp only
    rw [shiftRight_type, toInt_uint32]
  · intro i
    rcases eq_or_ne i h.id with rfl | hne
    · rw [setSlave_self]
      rfl
    · rw [setSlave_of_ne hne]
      exact hslaves i
  · exact fun hremote => absurd hlocal hremote

theorem emptied_remote (node : KeyValue β) (hremote : node.value >>> HANDLE_REMOTE_SHIFT ≠ h.id)
    (hfd : (h.s (node.value >>> HANDLE_REMOTE_SHIFT)).fd ≠ 0)
    (horigin : ∀ m ∈ sent, origin m.buffer = some x) (hsend : ∀ m ∈ sent, Sendable data m.buffer)
    (hqueue : node.queue.getD [] = sent.map (Sent.queued 0))
    (hslaves : ∀ i, queued origin x (h.s i) = []) :
  Emptied origin h sent x node.value (dispatchNameQueue data h node)
  := by
  have hsend' : ∀ m ∈ sent.map (Sent.queued 0), Sendable data m.buffer := by
    intro m hm
    obtain ⟨m', hm', rfl⟩ := List.mem_map.mp hm
    exact hsend m' hm'
  rw [dispatchNameQueue_remote hfd, hqueue]
  constructor
  · rfl
  · intro y hne
    apply shifts_self
    rw [about_sendRemote _ _ _ fun m hm _ => hsend' m hm, filter_queued_of_ne hne horigin]
    rfl
  · rw [about_sendRemote _ _ _ fun m hm _ => hsend' m hm, filter_queued horigin, List.map_map]
    apply List.map_congr_left
    intro m _
    have hdelivery : delivery h node.value m =
        .remote (h.s (node.value >>> HANDLE_REMOTE_SHIFT)).fd m.buffer (m.header node.value) :=
      if_neg hremote
    rw [hdelivery, Function.comp_apply, Sent.queued, Sent.header_zero]
    rfl
  · exact hslaves
  · exact fun _ hzero => absurd hzero hfd

/-- A name of which no message waits. -/
theorem emptied_of_none {handle : ℕ} (hout : sent = []) (hslaves : ∀ i, queued origin x (h.s i) = []) :
  Emptied origin h sent x handle ([], h)
  := by
  subst hout
  constructor
  · rfl
  · exact fun y _ => shifts_self about_nil
  · rfl
  · exact hslaves
  · exact fun _ _ => rfl

/-- The name is bound. -/
theorem Emptied.named {handle : ℕ} {r : List (Output β) × Harbor β}
    (hempty : Emptied origin h sent x handle r) (hhandle : handle ≠ 0) (hout : about origin x out = [])
    (hsend : handle >>> HANDLE_REMOTE_SHIFT ≠ r.2.id → ∀ m ∈ sent, Sendable data m.buffer) :
  Named data origin (r.2.setName x ⟨handle, none⟩) (out ++ r.1) sent x
  := by
  apply Named.bound
  · rwa [search_setName]
  · rw [search_setName]
  · exact fun i _ => hempty.slaves i
  · rwa [search_setName]
  · intro _
    refine ⟨sent, [], ?_⟩
    rw [search_setName]
    constructor
    · rw [List.append_nil]
    · rw [about_append, hout, hempty.out]
      rfl
    · exact hempty.slaves _
    · exact hempty.fd

/-- The other names are left as they are. -/
theorem Emptied.other {handle : ℕ} {r : List (Output β) × Harbor β} {sent' : List (Sent β)}
    (hempty : Emptied origin h sent x handle r) (hne : y ≠ x)
    (hnamed : Named data origin h out sent' y) :
  Named data origin (r.2.setName x ⟨handle, none⟩) (out ++ r.1) sent' y
  := by
  obtain ⟨id, s', hshifts⟩ := hempty.others y hne
  rw [← List.append_nil (out ++ r.1)]
  apply (hnamed.shifts hshifts).frame
  · rw [search_setName_of_ne hne]
  · rfl
  · rfl
  · rfl

end

/-! ### Runs -/

/-- What holds in every state. -/
structure World.Good (data : β → List UInt8) (origin : β → Option Name) (w : World β) : Prop where
  sound : w.harbor.Sound
  slave : w.harbor.slave >>> HANDLE_REMOTE_SHIFT = w.harbor.id
  tagged : ∀ x, ∀ m ∈ w.sent x, origin m.buffer = some x
  named : ∀ x, Named data origin w.harbor w.out (w.sent x) x

/-- Nothing waits for the slave of the node itself. -/
theorem Named.own {sent : List (Sent β)} (hnamed : Named data origin h out sent x) :
  queued origin x (h.s h.id) = []
  := by
  cases hnamed with
  | unbound hvalue hqueue hslaves hout => exact hslaves _
  | bound hvalue hqueue hslaves hsend hline => exact hslaves _ (.inr rfl)

section

variable {w : World β}

/-- A step that changes a slave at most. -/
theorem World.Good.shifts {r : List (Output β) × Harbor β} (hgood : w.Good data origin)
    (hsound : r.2.Sound) (hshifts : ∀ x, ∃ id s', Shifts origin x w.harbor r id s') :
  World.Good data origin ⟨r.2, w.out ++ r.1, w.sent⟩
  := by
  constructor
  · exact hsound
  · obtain ⟨id, s', hshift⟩ := hshifts []
    dsimp only
    rw [hshift.harbor]
    exact hgood.slave
  · exact hgood.tagged
  · intro x
    obtain ⟨id, s', hshift⟩ := hshifts x
    exact (hgood.named x).shifts hshift

/-- A name is bound. -/
theorem World.Good.bind {r : List (Output β) × Harbor β} {x : Name} {handle : ℕ}
    (hgood : w.Good data origin) (hsound : r.2.Sound)
    (hempty : Emptied origin w.harbor (w.sent x) x handle r)
    (hhandle : handle ≠ 0) (hout : about origin x w.out = []) (hslave : r.2.slave = w.harbor.slave)
    (hid : r.2.id = w.harbor.id)
    (hsend : handle >>> HANDLE_REMOTE_SHIFT ≠ w.harbor.id → ∀ m ∈ w.sent x, Sendable data m.buffer) :
  World.Good data origin ⟨r.2.setName x ⟨handle, none⟩, w.out ++ r.1, w.sent⟩
  := by
  constructor
  · exact hsound
  · have hsame := hgood.slave
    rw [← hslave, ← hid] at hsame
    exact hsame
  · exact hgood.tagged
  · intro y
    rcases eq_or_ne y x with rfl | hne
    · apply hempty.named hhandle hout
      rwa [hid]
    · exact hempty.other hne (hgood.named y)

theorem updateName_of_none {handle : ℕ} (hqueue : (h.search x).queue = none) :
  updateName data h x handle = ([], h.setName x ⟨handle, none⟩)
  := by
  unfold updateName
  dsimp only
  rw [hqueue]

theorem updateName_of_some {handle : ℕ} (hqueue : (h.search x).queue ≠ none) :
  updateName data h x handle =
    ((dispatchNameQueue data h { h.search x with value := handle }).1,
      (dispatchNameQueue data h { h.search x with value := handle }).2.setName x ⟨handle, none⟩)
  := by
  unfold updateName
  dsimp only
  split
  · contradiction
  · rfl

variable (data) in
theorem dispatchNameQueue_same (h : Harbor β) (node : KeyValue β) :
  (dispatchNameQueue data h node).2.slave = h.slave ∧ (dispatchNameQueue data h node).2.id = h.id
  := by
  unfold dispatchNameQueue
  dsimp only
  split_ifs <;> exact ⟨rfl, rfl⟩

/-- The command `N`. -/
theorem World.Good.commandN {name : Name} {source : ℕ} (hgood : w.Good data origin)
    (hadmitted : Admitted origin w (.N name source)) (htimely : Timely data w (.N name source)) :
  World.Good data origin
    ⟨(commandN data w.harbor name source).2, w.out ++ (commandN data w.harbor name source).1, w.sent⟩
  := by
  obtain ⟨hsource, hvalue⟩ := hadmitted
  unfold Harbor.commandN
  split_ifs with hlength
  · apply hgood.shifts (r := ([], w.harbor))
    · exact hgood.sound
    · exact fun x => shifts_self about_nil
  · cases hgood.named name with
    | bound hbound => contradiction
    | unbound _ hqueue hslaves hout =>
        rcases Decidable.em ((w.harbor.search name).queue = none) with hnone | hsome
        · rw [updateName_of_none hnone]
          have hsent : w.sent name = [] := by
            rw [hnone] at hqueue
            exact List.map_eq_nil_iff.mp hqueue.symm
          apply hgood.bind (r := ([], w.harbor))
          · exact hgood.sound
          · exact emptied_of_none hsent hslaves
          · exact hsource
          · exact hout
          · rfl
          · rfl
          · intro _ m hm
            rw [hsent] at hm
            contradiction
        · let node : KeyValue β := { w.harbor.search name with value := source }
          obtain ⟨hslave, hid⟩ := dispatchNameQueue_same data w.harbor node
          rw [updateName_of_some hsome]
          apply hgood.bind (r := dispatchNameQueue data w.harbor node)
          · exact hgood.sound.dispatchNameQueue _
          · rcases htimely with hnone | ⟨hlocal, hfd⟩ | ⟨hremote, hfd, hsend⟩
            · contradiction
            · exact emptied_local hgood.sound node hgood.slave hlocal hfd (hgood.tagged name) hqueue hslaves
                fun y => (hgood.named y).own
            · exact emptied_remote node hremote hfd (hgood.tagged name) hsend hqueue hslaves
          · exact hsource
          · exact hout
          · exact hslave
          · exact hid
          · intro hremote
            rcases htimely with hnone | ⟨hlocal, hfd⟩ | ⟨-, -, hsend⟩
            · contradiction
            · contradiction
            · exact hsend

/-- What has been sent to each name, with a message more. -/
theorem World.Good.tagged_update {name : Name} {m : Sent β} (hgood : w.Good data origin)
    (horigin : origin m.buffer = some name) (x : Name) :
  ∀ m' ∈ Function.update w.sent name (w.sent name ++ [m]) x, origin m'.buffer = some x
  := by
  intro m' hm'
  rcases eq_or_ne x name with rfl | hne
  · rw [Function.update_self] at hm'
    rcases List.mem_append.mp hm' with hm' | hm'
    · exact hgood.tagged x m' hm'
    · obtain rfl := List.mem_singleton.mp hm'
      exact horigin
  · rw [Function.update_of_ne hne] at hm'
    exact hgood.tagged x m' hm'

/-- It is enough to look at each name by itself. -/
theorem World.Good.send {name : Name} {m : Sent β} {r : List (Output β) × Harbor β}
    (hgood : w.Good data origin) (hsound : r.2.Sound) (horigin : origin m.buffer = some name)
    (hslave : r.2.slave = w.harbor.slave) (hid : r.2.id = w.harbor.id)
    (hname : Named data origin r.2 (w.out ++ r.1) (w.sent name ++ [m]) name)
    (hother : ∀ x, x ≠ name → Named data origin r.2 (w.out ++ r.1) (w.sent x) x) :
  World.Good data origin ⟨r.2, w.out ++ r.1, Function.update w.sent name (w.sent name ++ [m])⟩
  := by
  constructor
  · exact hsound
  · have hsame := hgood.slave
    rw [← hslave, ← hid] at hsame
    exact hsame
  · exact hgood.tagged_update horigin
  · intro x
    rcases eq_or_ne x name with rfl | hne
    · dsimp only
      rwa [Function.update_self]
    · dsimp only
      rw [Function.update_of_ne hne]
      exact hother x hne

variable (data) in
theorem remoteSendHandle_same (h : Harbor β) (source destination : ℕ) (type : UInt8) (session : Session)
    (buffer : β) :
  (remoteSendHandle data h source destination type session buffer).2.slave = h.slave ∧
    (remoteSendHandle data h source destination type session buffer).2.id = h.id
  := by
  unfold remoteSendHandle
  dsimp only
  split_ifs <;> exact ⟨rfl, rfl⟩

/-- Looking a name up changes nothing that matters. -/
theorem Named.search {sent : List (Sent β)} {name : Name} (hnamed : Named data origin h out sent x) :
  Named data origin (h.setName name (h.search name)) out sent x
  := by
  rw [← List.append_nil out]
  apply hnamed.frame
  · rcases eq_or_ne x name with rfl | hne
    · rw [search_setName]
    · rw [search_setName_of_ne hne]
  · rfl
  · rfl
  · rfl

/-- A message to a name. -/
theorem World.Good.toName {name : Name} (m : Sent β) (hgood : w.Good data origin)
    (horigin : origin m.buffer = some name)
    (htimely : Timely data w (.toName m.source name m.type m.session m.buffer)) :
  World.Good data origin
    ⟨(remoteSendName data w.harbor m.source name m.type m.session m.buffer).2,
      w.out ++ (remoteSendName data w.harbor m.source name m.type m.session m.buffer).1,
      Function.update w.sent name (w.sent name ++ [m])⟩
  := by
  have hne {x : Name} (hx : x ≠ name) : origin m.buffer ≠ some x := by
    rw [horigin]
    exact fun heq => hx (Option.some.inj heq).symm
  unfold remoteSendName
  dsimp only
  split_ifs with hvalue
  · apply hgood.send (r := ([_], w.harbor.setName name _)) _ horigin
    · rfl
    · rfl
    · have hwait := (hgood.named name).wait hvalue m ⟨0, w.harbor.slave, PTYPE_TEXT, 0, queryText name⟩
      rw [Sent.queued, Sent.header_zero] at hwait
      exact hwait
    · intro x hx
      apply (hgood.named x).frame
      · rw [search_setName_of_ne hx]
      · rfl
      · rfl
      · apply about_of_name_ne
        intro o ho
        obtain rfl := List.mem_singleton.mp ho
        exact nofun
    · exact hgood.sound
  · have hsound : (w.harbor.setName name (w.harbor.search name)).Sound := hgood.sound
    obtain ⟨hslave, hid⟩ := remoteSendHandle_same data
      (w.harbor.setName name (w.harbor.search name)) m.source (w.harbor.search name).value m.type m.session
      m.buffer
    have hvalue' : ((w.harbor.setName name (w.harbor.search name)).search name).value ≠ 0 := by
      rwa [search_setName]
    apply hgood.send _ horigin hslave hid
    · have hsend := (hgood.named name).search.sendHandle hsound hvalue' m horigin (by
        rw [search_setName]
        exact htimely hvalue)
      rwa [search_setName] at hsend
    · intro x hx
      obtain ⟨id, s', hshifts⟩ := remoteSendHandle_shifts data
        (h := w.harbor.setName name (w.harbor.search name)) (hne hx) m.source
        (w.harbor.search name).value m.type m.session
      exact (hgood.named x).search.shifts hshifts
    · exact hsound.remoteSendHandle _ _ _ _ _

/-- Every step that is admitted and timely keeps what holds. -/
theorem World.Good.step {w' : World β} {m : Message β} (hgood : w.Good data origin)
    (hadmitted : Admitted origin w m) (htimely : Timely data w m)
    (hstep : (names data found).step w m = some w') :
  w'.Good data origin
  := by
  obtain rfl := Option.some.inj hstep
  have hsendable (x : Name) (id : ℕ) (hup : (w.harbor.s id).status ≠ .DOWN) :=
    (hgood.named x).sendable hup
  cases m with
  | data fd buffer =>
      apply hgood.shifts
      · exact hgood.sound.mainloop _
      · exact fun x => pushSocketData_shifts hgood.sound (hsendable x) fd buffer
  | closed fd =>
      apply hgood.shifts
      · exact hgood.sound.mainloop _
      · intro x
        unfold mainloop
        dsimp only
        split
        · apply shifts_self
          apply about_of_name_ne
          intro o ho
          obtain rfl := List.mem_singleton.mp ho
          rintro ⟨⟩
        · exact shifts_self about_nil
  | N name source => exact hgood.commandN hadmitted htimely
  | SA connects fd id =>
      apply hgood.shifts
      · exact hgood.sound.mainloop _
      · exact fun x => commandSA_shifts hgood.sound (hsendable x) connects fd id
  | toName source name type session buffer =>
      exact hgood.toName ⟨source, type, session, buffer⟩ hadmitted htimely
  | toHandle source destination type session buffer =>
      have hnone : origin buffer = none := hadmitted
      apply hgood.shifts
      · exact hgood.sound.mainloop _
      · intro x
        apply remoteSendHandle_shifts
        rw [hnone]
        rintro ⟨⟩

theorem good_of_reaches
    (hrun : (names data found).Reaches (fun w m => Admitted origin w m ∧ Timely data w m) w) :
  w.Good data origin
  := by
  apply Machine.invariant _ _ hrun
  · rintro w ⟨hstarted, hslave, hout, hsent⟩
    constructor
    · intro id
      obtain ⟨hfd, hqueue, hstatus, hread⟩ := hstarted.slave id
      exact ⟨iff_of_true hfd hstatus, fun _ => hread, fun _ => hqueue⟩
    · exact hslave
    · intro x m hm
      rw [hsent x] at hm
      contradiction
    · intro x
      have hsearch : w.harbor.search x = ⟨0, none⟩ := by
        rw [search, hstarted.map x]
        rfl
      apply Named.unbound
      · rw [hsearch]
      · rw [hsearch, hsent x]
        rfl
      · exact fun i => queued_of_none (hstarted.slave i).2.1
      · rw [hout]
        rfl
  · intro w m w' hgood hok hstep
    exact hgood.step hok.1 hok.2 hstep

/-- The messages to a name that is bound to a handle here, or to one of a node that is connected, have been
delivered to this handle, each once and in the order in which they were sent. -/
theorem named_delivered
    (hrun : (names data found).Reaches (fun w m => Admitted origin w m ∧ Timely data w m) w) :
  Delivered origin w
  := by
  have hgood := good_of_reaches hrun
  intro x hvalue hestablished
  cases hgood.named x with
  | unbound hzero => contradiction
  | bound _ hqueue hslaves hsend hline =>
      have hup : (w.harbor.search x).value >>> HANDLE_REMOTE_SHIFT = w.harbor.id ∨
          (w.harbor.s ((w.harbor.search x).value >>> HANDLE_REMOTE_SHIFT)).status ≠ .DOWN := by
        rcases hestablished with hlocal | hstatus | hstatus
        · exact .inl hlocal
        · rw [hstatus]
          exact .inr nofun
        · rw [hstatus]
          exact .inr nofun
      obtain ⟨done, waiting, hline⟩ := hline hup
      have hempty : queued origin x
          (w.harbor.s ((w.harbor.search x).value >>> HANDLE_REMOTE_SHIFT)) = [] := by
        rcases hestablished with hlocal | hstatus
        · exact hslaves _ (.inr hlocal)
        · exact queued_of_none ((hgood.sound _).queue hstatus)
      have hnone : waiting = [] := by
        have hqueue := hline.queue
        rw [hempty] at hqueue
        exact List.map_eq_nil_iff.mp hqueue.symm
      rw [hline.out, hline.sent, hnone, List.append_nil]

/-! ### A message to a name of another node -/

/-- The harbor of node 1 when it starts. -/
def start : World ℕ where
  harbor :=
    { id := 1, slave := 0x01000002, map := fun _ => none, s := fun _ => ⟨0, none, .WAIT, 0, 0, [], []⟩ }
  out := []
  sent := fun _ => []

/-- The state after some messages. -/
def after (w : World ℕ) (m : Message ℕ) : World ℕ :=
  ⟨(mainloop (fun _ => []) (fun _ => false) w.harbor m).2,
    w.out ++ (mainloop (fun _ => []) (fun _ => false) w.harbor m).1, sentBy w.sent m⟩

theorem start_started :
  (names (fun _ : ℕ => []) fun _ => false).init start
  := ⟨⟨fun _ => rfl, fun _ => ⟨rfl, rfl, rfl, rfl⟩⟩, rfl, rfl, fun _ => rfl⟩

/-- The buffer 7 is sent to the name `a`, which is bound, and the socket 9 connects the node of its handle. -/
def toA : Message ℕ :=
  .toName 5 [97] 0 ⟨1, by decide⟩ 7

def bindA : Message ℕ :=
  .N [97] 0x02000003

def connect : Message ℕ :=
  .SA false 9 2

theorem reaches_after {ok : World ℕ → Message ℕ → Prop} {w : World ℕ} (m : Message ℕ)
    (h : (names (fun _ : ℕ => []) fun _ => false).Reaches ok w) (hok : ok w m) :
  (names (fun _ : ℕ => []) fun _ => false).Reaches ok (after w m)
  := .step h hok rfl

theorem named_delivered_connected :
  about (fun _ => some [97]) [97] (after (after (after start toA) connect) bindA).out =
    [.remote 9 7 ⟨5, 3, 1⟩]
  := by
  have htwelve : ([] : List UInt8).length + HEADER_COOKIE_LENGTH ≤ UINT32_MAX := by decide
  have hsmall (b : ℕ) : Sendable (fun _ => []) b := htwelve
  have htimely : Timely (fun _ : ℕ => []) (after (after start toA) connect) bindA :=
    .inr (.inr ⟨by decide, by decide, fun _ _ => hsmall _⟩)
  have hrun : (names (fun _ : ℕ => []) fun _ => false).Reaches
      (fun w m => Admitted (fun _ => some [97]) w m ∧ Timely (fun _ => []) w m)
      (after (after (after start toA) connect) bindA) := by
    apply reaches_after
    · apply reaches_after
      · apply reaches_after
        · exact .init start_started
        · exact ⟨rfl, fun _ _ => hsmall _⟩
      · exact ⟨trivial, trivial⟩
    · exact ⟨⟨by decide, rfl⟩, htimely⟩
  rw [named_delivered hrun [97] (by decide) (.inr (.inl rfl))]
  rfl

/-- If the node is connected after the name has been bound, the message goes to the handle `0` there. -/
theorem destination_left_out :
  ∃ w, (names (fun _ : ℕ => []) fun _ => false).Reaches (Admitted fun _ => some [97]) w ∧
    about (fun _ => some [97]) [97] w.out = [.remote 9 7 ⟨5, 0, 1⟩] ∧ ¬Delivered (fun _ => some [97]) w
  := by
  refine ⟨after (after (after start toA) bindA) connect, ?_, rfl, ?_⟩
  · apply reaches_after
    · apply reaches_after
      · apply reaches_after
        · exact .init start_started
        · rfl
      · exact ⟨by decide, rfl⟩
    · trivial
  · intro hdelivered
    have hone : [Output.remote 9 7 ⟨5, 0, 1⟩] = [Output.remote 9 7 ⟨5, 3, 1⟩] :=
      hdelivered [97] (by decide) (.inr (.inl rfl))
    have hhead := List.head_eq_of_cons_eq hone
    injection hhead with _ _ hheader
    injection hheader with _ hdestination _
    contradiction

end

end Harbor

end Skynet
