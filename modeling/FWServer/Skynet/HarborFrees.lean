import FWServer.Kernel.Ledger
import FWServer.Skynet.HarborStream

/-!
# The buffers of the harbor

The buffer of a message for another node belongs to the harbor until it has been sent or dropped.  Here is which
buffers each function of `service-src/service_harbor.c` frees; `Ledger.mainloop` says that no buffer is freed twice,
or while it is in a queue.
-/

namespace Skynet

namespace Harbor

variable {β : Type} {data : β → List UInt8} {found : ℕ → Bool} {h h' h'' : Harbor β} {id : ℕ}

/-! ### What is freed -/

/-- The buffers that `release_queue` frees. -/
def buffers (queue : Option (List (HarborMsg β))) : List β :=
  (queue.getD []).map HarborMsg.buffer

/-- The buffers that `close_harbor` frees. -/
def closeHarborFreed (h : Harbor β) (id : ℕ) : List β :=
  buffers (h.s id).queue

/-- The buffers that `dispatch_queue` frees, one after the other as they have been sent. -/
def dispatchQueueFreed (h : Harbor β) (id : ℕ) : List β :=
  buffers (h.s id).queue

/-- The buffers that the case `STATUS_HEADER` frees.  The case `STATUS_CONTENT` frees none. -/
def headerFreed (h : Harbor β) (id : ℕ) (buffer : List UInt8) : List β :=
  let s := h.s id
  let need := 4 - s.read
  if buffer.length < need then []
  else
    let size := memcpy s.size s.read (buffer.take need)
    if size.headD 0 ≠ 0 then closeHarborFreed (h.setSlave id { s with size := size }) id else []

/-- The buffers that the case `STATUS_HANDSHAKE` frees. -/
def checkIdFreed (data : β → List UInt8) (h : Harbor β) (id : ℕ) : List UInt8 → List β
  | [] => []
  | remote_id :: buffer =>
      if remote_id.toNat ≠ id then closeHarborFreed h id
      else
        let h := h.setSlave id { h.s id with status := .HEADER }
        dispatchQueueFreed h id ++
          if buffer = [] then [] else headerFreed (dispatchQueue data h id).2 id buffer

/-- The buffers that a turn of the loop of `push_socket_data` frees. -/
def turnFreed (data : β → List UInt8) (h : Harbor β) (id : ℕ) (buffer : List UInt8) : List β :=
  match (h.s id).status with
  | .HANDSHAKE => checkIdFreed data h id buffer
  | .HEADER => headerFreed h id buffer
  | _ => []

/-- The buffers that the loop frees. -/
def pushLoopFreed (data : β → List UInt8) (found : ℕ → Bool) (id : ℕ) : ℕ → Harbor β → List UInt8 → List β
  | 0, _, _ => []
  | n + 1, h, buffer =>
      turnFreed data h id buffer ++
        match turn data found h id buffer with
        | (_, h, some rest) => pushLoopFreed data found id n h rest
        | (_, _, none) => []

/-- The buffers that `push_socket_data` frees. -/
def pushSocketDataFreed (data : β → List UInt8) (found : ℕ → Bool) (h : Harbor β) (fd : ℕ) (buffer : List UInt8) :
    List β :=
  match h.slaveOf fd with
  | none => []
  | some id => pushLoopFreed data found id (buffer.length + 2) h buffer

/-- The buffers that `dispatch_name_queue` frees as they have been sent, or `update_name` as it releases the queue. -/
def dispatchNameQueueFreed (h : Harbor β) (node : KeyValue β) : List β :=
  let s := h.s (node.value >>> HANDLE_REMOTE_SHIFT)
  if s.fd = 0 then
    if s.status = .DOWN then buffers node.queue else []
  else buffers node.queue

/-- The buffers that `update_name` frees. -/
def updateNameFreed (h : Harbor β) (name : Name) (handle : ℕ) : List β :=
  let node : KeyValue β := { h.search name with value := handle }
  match node.queue with
  | none => []
  | some _ => dispatchNameQueueFreed h node

/-- The buffer that `mainloop` frees, unless `remote_send_handle` returns 1. -/
def remoteSendHandleFreed (h : Harbor β) (destination : ℕ) (buffer : β) : List β :=
  let harbor_id := destination >>> HANDLE_REMOTE_SHIFT
  if harbor_id = h.id then []
  else
    let s := h.s harbor_id
    if s.fd = 0 ∨ s.status = .HANDSHAKE then
      if s.status = .DOWN then [buffer] else []
    else [buffer]

/-- The buffer that `mainloop` frees, unless `remote_send_name` returns 1. -/
def remoteSendNameFreed (h : Harbor β) (name : Name) (buffer : β) : List β :=
  let node := h.search name
  if node.value = 0 then [] else remoteSendHandleFreed (h.setName name node) node.value buffer

/-- The buffers that the command `N` frees. -/
def commandNFreed (h : Harbor β) (name : Name) (source : ℕ) : List β :=
  if name.length = 0 ∨ name.length ≥ GLOBALNAME_LENGTH then [] else updateNameFreed h name source

/-- The buffers that the commands `S` and `A` free. -/
def commandSAFreed (h : Harbor β) (connects : Bool) (fd id : ℕ) : List β :=
  if fd = 0 ∨ id = 0 ∨ id ≥ REMOTE_MAX then []
  else
    let slave := h.s id
    if slave.fd ≠ 0 then []
    else if connects then []
    else dispatchQueueFreed (h.setSlave id { slave with fd := fd, status := .HEADER }) id

/-- The buffers that `mainloop` frees. -/
def mainloopFreed (data : β → List UInt8) (found : ℕ → Bool) (h : Harbor β) : Message β → List β
  | .data fd buffer => pushSocketDataFreed data found h fd buffer
  | .closed _ => []
  | .N name source => commandNFreed h name source
  | .SA connects fd id => commandSAFreed h connects fd id
  | .toName _ name _ _ buffer => remoteSendNameFreed h name buffer
  | .toHandle _ destination _ _ buffer => remoteSendHandleFreed h destination buffer

/-- The buffer that comes with a message. -/
def Message.buffers : Message β → List β
  | .toName _ _ _ _ buffer => [buffer]
  | .toHandle _ _ _ _ buffer => [buffer]
  | _ => []

/-! ### The queues -/

/-- The buffers in the queue of a name or of a slave. -/
def held (h : Harbor β) : Name ⊕ ℕ → List β
  | .inl name => buffers (h.search name).queue
  | .inr id => buffers (h.s id).queue

theorem held_setSlave (h : Harbor β) (id : ℕ) (s : Slave β) :
  (h.setSlave id s).held = Function.update h.held (.inr id) (buffers s.queue)
  := by
  funext k
  rcases eq_or_ne k (.inr id) with rfl | hk
  · rw [Function.update_self, held, setSlave_self]
  · rw [Function.update_of_ne hk]
    cases k with
    | inl name => rfl
    | inr i => rw [held, held, setSlave_of_ne fun heq => hk (congrArg Sum.inr heq)]

theorem held_setName (h : Harbor β) (name : Name) (node : KeyValue β) :
  (h.setName name node).held = Function.update h.held (.inl name) (buffers node.queue)
  := by
  funext k
  rcases eq_or_ne k (.inl name) with rfl | hk
  · have hname : (h.setName name node).map name = some node := Function.update_self _ _ _
    rw [Function.update_self, held, search, hname]
    rfl
  · rw [Function.update_of_ne hk]
    cases k with
    | inr i => rfl
    | inl x =>
        have hname : (h.setName name node).map x = h.map x :=
          Function.update_of_ne (fun heq => hk (congrArg Sum.inl heq)) _ _
        rw [held, held, search, hname]
        rfl

/-! ### Reading from a slave -/

/-- The harbor becomes `h'` and frees the front of the queue of a slave; nothing is left in it if the slave goes
down. -/
structure Frees (h : Harbor β) (id : ℕ) (freed : List β) (h' : Harbor β) : Prop where
  queue : buffers (h.s id).queue = freed ++ buffers (h'.s id).queue
  slave : ∀ i ≠ id, h'.s i = h.s i
  map : h'.map = h.map
  down : (h'.s id).status = .DOWN → (h.s id).status = .DOWN ∨ buffers (h'.s id).queue = []

variable {freed freed' : List β} {buffer : List UInt8}

theorem Frees.refl (h : Harbor β) (id : ℕ) :
  Frees h id [] h
  := ⟨rfl, fun _ _ => rfl, rfl, .inl⟩

theorem Frees.trans (hf : Frees h id freed h') (hf' : Frees h' id freed' h'') :
  Frees h id (freed ++ freed') h''
  where
  queue := by rw [hf.queue, hf'.queue, List.append_assoc]
  slave i hi := (hf'.slave i hi).trans (hf.slave i hi)
  map := hf'.map.trans hf.map
  down hdown := by
    rcases hf'.down hdown with hdown' | hempty
    · apply (hf.down hdown').imp_right
      intro hempty
      have hqueue := hf'.queue
      rw [hempty] at hqueue
      exact (List.append_eq_nil_iff.mp hqueue.symm).2
    · exact .inr hempty

/-- A slave is changed, but for its queue. -/
theorem Frees.setSlave {s : Slave β} (hqueue : s.queue = (h.s id).queue)
    (hdown : s.status = .DOWN → (h.s id).status = .DOWN) :
  Frees h id [] (h.setSlave id s)
  where
  queue := by rw [setSlave_self, hqueue, List.nil_append]
  slave _ hi := setSlave_of_ne hi s
  map := rfl
  down := by
    rw [setSlave_self]
    exact fun hs => .inl (hdown hs)

theorem Frees.closeHarbor (h : Harbor β) (id : ℕ) :
  Frees h id (closeHarborFreed h id) (closeHarbor h id).2
  where
  queue := by
    rw [Harbor.closeHarbor, setSlave_self]
    exact (List.append_nil _).symm
  slave _ hi := setSlave_of_ne hi _
  map := rfl
  down _ := by
    right
    rw [Harbor.closeHarbor, setSlave_self]
    rfl

variable (data) in
theorem Frees.dispatchQueue (h : Harbor β) (id : ℕ) :
  Frees h id (dispatchQueueFreed h id) (dispatchQueue data h id).2
  where
  queue := by
    rw [dispatchQueue_eq, setSlave_self]
    exact (List.append_nil _).symm
  slave i hi := by
    rw [dispatchQueue_eq]
    apply setSlave_of_ne hi
  map := by
    rw [dispatchQueue_eq]
    rfl
  down _ := by
    right
    rw [dispatchQueue_eq, setSlave_self]
    rfl

theorem Frees.content (h : Harbor β) (id : ℕ) (buffer : List UInt8) :
  Frees h id [] (content found h id buffer).2.1
  := by
  rcases Nat.lt_or_ge buffer.length ((h.s id).length - (h.s id).read) with hlt | hle
  · rw [content_short hlt]
    apply Frees.setSlave
    · rfl
    · exact fun hdown => hdown
  · rw [content_full hle]
    apply Frees.setSlave
    · rfl
    · rintro ⟨⟩

theorem Frees.header (h : Harbor β) (id : ℕ) (buffer : List UInt8) :
  Frees h id (headerFreed h id buffer) (header found h id buffer).2.1
  := by
  have hread : Frees h id [] (h.setSlave id (headed (h.s id) buffer)) := by
    apply Frees.setSlave
    · rfl
    · rintro ⟨⟩
  obtain hlt | ⟨hle, hlong | ⟨hlong, hend | hmore⟩⟩ := header_cases h id buffer
  · have hfreed : headerFreed h id buffer = [] := if_pos hlt
    rw [header_short hlt, hfreed]
    apply Frees.setSlave
    · rfl
    · exact fun hdown => hdown
  · have hfreed : headerFreed h id buffer =
        closeHarborFreed (h.setSlave id { h.s id with size := sizeBytes (h.s id) buffer }) id :=
      (if_neg (Nat.not_lt.mpr hle)).trans (if_pos hlong)
    have hsize : Frees h id [] (h.setSlave id { h.s id with size := sizeBytes (h.s id) buffer }) := by
      apply Frees.setSlave
      · rfl
      · exact fun hdown => hdown
    rw [header_close hle hlong, hfreed]
    exact hsize.trans (Frees.closeHarbor _ id)
  · have hfreed : headerFreed h id buffer = [] :=
      (if_neg (Nat.not_lt.mpr hle)).trans (if_neg (not_not_intro hlong))
    rw [header_end hle hlong hend, hfreed]
    apply hread
  · have hfreed : headerFreed h id buffer = [] :=
      (if_neg (Nat.not_lt.mpr hle)).trans (if_neg (not_not_intro hlong))
    rw [header_content hle hlong hmore, hfreed]
    exact hread.trans (Frees.content _ id _)

theorem Frees.checkId (h : Harbor β) (id : ℕ) (buffer : List UInt8) :
  Frees h id (checkIdFreed data h id buffer) (checkId data found h id buffer).2.1
  := by
  cases buffer with
  | nil => apply Frees.refl
  | cons remote_id buffer =>
      rcases ne_or_eq remote_id.toNat id with hid | hid
      · have hfreed : checkIdFreed data h id (remote_id :: buffer) = closeHarborFreed h id := if_pos hid
        rw [checkId_wrong hid, hfreed]
        apply Frees.closeHarbor
      · have hfreed : checkIdFreed data h id (remote_id :: buffer) =
            dispatchQueueFreed (h.setSlave id { h.s id with status := .HEADER }) id ++
              if buffer = [] then []
              else headerFreed (Harbor.dispatchQueue data (h.setSlave id { h.s id with status := .HEADER }) id).2 id
                buffer :=
          if_neg (not_not_intro hid)
        have hstatus : Frees h id [] (h.setSlave id { h.s id with status := .HEADER }) := by
          apply Frees.setSlave
          · rfl
          · rintro ⟨⟩
        have hdispatch := hstatus.trans (Frees.dispatchQueue data (h.setSlave id { h.s id with status := .HEADER }) id)
        rw [hfreed]
        rw [dispatchQueue_header] at hdispatch ⊢
        rcases eq_or_ne buffer [] with rfl | hmore
        · rw [checkId_end hid, if_pos rfl, List.append_nil]
          apply hdispatch
        · rw [checkId_header hid hmore, if_neg hmore]
          exact hdispatch.trans (Frees.header _ id buffer)

variable (data found) in
theorem Frees.turn (h : Harbor β) (id : ℕ) (buffer : List UInt8) :
  Frees h id (turnFreed data h id buffer) (turn data found h id buffer).2.1
  := by
  rw [turnFreed, Harbor.turn]
  cases (h.s id).status with
  | HANDSHAKE => apply Frees.checkId
  | HEADER => apply Frees.header
  | CONTENT => apply Frees.content
  | WAIT => apply Frees.refl
  | DOWN => apply Frees.refl

variable (data found) in
theorem Frees.pushLoop (h : Harbor β) (id n : ℕ) (buffer : List UInt8) :
  Frees h id (pushLoopFreed data found id n h buffer) (pushLoop data found id n h buffer).2
  := by
  induction n generalizing h buffer with
  | zero => apply Frees.refl
  | succ n ih =>
      have hturn := Frees.turn data found h id buffer
      rw [pushLoopFreed, Harbor.pushLoop]
      generalize Harbor.turn data found h id buffer = r at hturn ⊢
      obtain ⟨out, h', rest⟩ := r
      cases rest with
      | none =>
          dsimp only
          rw [List.append_nil]
          apply hturn
      | some rest => exact hturn.trans (ih h' rest)

theorem Frees.held_eq (hf : Frees h id freed h') :
  h'.held = Function.update h.held (.inr id) (buffers (h'.s id).queue)
  := by
  funext k
  rcases eq_or_ne k (.inr id) with rfl | hk
  · rw [Function.update_self]
    rfl
  · rw [Function.update_of_ne hk]
    cases k with
    | inl name => rw [held, held, search, search, hf.map]
    | inr i => rw [held, held, hf.slave i fun heq => hk (congrArg Sum.inr heq)]

/-! ### The ledger -/

variable {taken gone : List β}

theorem Frees.ledger (hf : Frees h id freed h') (hl : Ledger taken gone h.held) :
  Ledger taken (gone ++ freed) h'.held
  := by
  rw [hf.held_eq]
  exact hl.free (k := Sum.inr id) hf.queue

/-- A change that keeps all queues. -/
theorem ledger_of_held (hl : Ledger taken gone h.held) (hheld : h'.held = h.held) (hfreed : freed = []) :
  Ledger taken (gone ++ freed) h'.held
  := by rwa [hfreed, List.append_nil, hheld]

theorem ledger_pushSocketData (hl : Ledger taken gone h.held) (fd : ℕ) (buffer : List UInt8) :
  Ledger taken (gone ++ pushSocketDataFreed data found h fd buffer) (pushSocketData data found h fd buffer).2.held
  := by
  rw [pushSocketDataFreed, pushSocketData]
  cases h.slaveOf fd with
  | none => apply ledger_of_held hl rfl rfl
  | some id => exact (Frees.pushLoop data found h id _ buffer).ledger hl

theorem held_setSlave_of_queue {s : Slave β} (hqueue : s.queue = (h.s id).queue) :
  (h.setSlave id s).held = h.held
  := by
  rw [held_setSlave, hqueue]
  apply Function.update_eq_self

theorem held_setName_of_queue {name : Name} {node : KeyValue β} (hqueue : node.queue = (h.search name).queue) :
  (h.setName name node).held = h.held
  := by
  rw [held_setName, hqueue]
  apply Function.update_eq_self

theorem ledger_commandSA (hl : Ledger taken gone h.held) (connects : Bool) (fd id : ℕ) :
  Ledger taken (gone ++ commandSAFreed h connects fd id) (commandSA data h connects fd id).2.held
  := by
  rw [commandSAFreed, commandSA]
  dsimp only
  split_ifs
  · apply ledger_of_held hl rfl rfl
  · apply ledger_of_held hl rfl rfl
  · apply ledger_of_held hl _ rfl
    exact held_setSlave_of_queue (by rfl)
  · apply (Frees.dispatchQueue data _ id).ledger
    rw [held_setSlave_of_queue]
    · apply hl
    · rfl

variable (data) in
/-- The queue of a name is freed, moved to the queue of a slave, or emptied with it. -/
theorem ledger_dispatchNameQueue (hl : Ledger taken gone h.held) (name : Name) (node : KeyValue β)
    (hnode : node.queue = (h.search name).queue) :
  Ledger taken (gone ++ dispatchNameQueueFreed h node)
    ((dispatchNameQueue data h node).2.setName name { node with queue := none }).held
  := by
  have hqueue : h.held (.inl name) = buffers node.queue := by rw [held, hnode]
  have hfree : Ledger taken (gone ++ buffers node.queue) (h.setName name { node with queue := none }).held := by
    rw [held_setName]
    apply hl.free (k := .inl name)
    rw [hqueue]
    exact (List.append_nil _).symm
  rw [dispatchNameQueueFreed, dispatchNameQueue]
  dsimp only
  split_ifs
  · apply hfree
  · rw [List.append_nil, held_setName, held_setSlave]
    exact (hl.drop _).drop _
  · rw [List.append_nil, held_setName, held_setSlave]
    have hne : Sum.inl name ≠ Sum.inr (node.value >>> HANDLE_REMOTE_SHIFT) := Sum.inl_ne_inr
    have hmoved := hl.move hne
    rw [hqueue] at hmoved
    simpa only [held, buffers, Option.getD_some, Option.getD_none, List.map_append, List.map_nil] using hmoved
  · apply hfree

theorem ledger_commandN (hl : Ledger taken gone h.held) (name : Name) (source : ℕ) :
  Ledger taken (gone ++ commandNFreed h name source) (commandN data h name source).2.held
  := by
  rw [commandNFreed, commandN]
  split_ifs
  · apply ledger_of_held hl rfl rfl
  · rw [updateNameFreed, updateName]
    dsimp only
    cases hqueue : (h.search name).queue with
    | none =>
        apply ledger_of_held hl _ rfl
        apply held_setName_of_queue
        rw [hqueue]
    | some queue =>
        have hnode := ledger_dispatchNameQueue data hl name { h.search name with value := source } rfl
        simpa only [hqueue] using hnode

/-- A buffer that is new is sent and freed, put in the queue of a slave, or passed on. -/
theorem ledger_remoteSendHandle (hl : Ledger taken gone h.held) (source destination : ℕ) (type : UInt8)
    (session : Session) {buffer : β} (hnew : buffer ∉ taken) :
  Ledger (taken ++ [buffer]) (gone ++ remoteSendHandleFreed h destination buffer)
    (remoteSendHandle data h source destination type session buffer).2.held
  := by
  rw [remoteSendHandleFreed, remoteSendHandle]
  dsimp only
  split_ifs
  · rw [List.append_nil]
    apply hl.pass
  · apply hl.free_new hnew
  · rw [List.append_nil, held_setSlave]
    have hreceived := hl.receive hnew (.inr (destination >>> HANDLE_REMOTE_SHIFT))
    simpa only [held, buffers, Option.getD_some, List.map_append, List.map_singleton] using hreceived
  · apply hl.free_new hnew

theorem ledger_remoteSendName (hl : Ledger taken gone h.held) (source : ℕ) (name : Name) (type : UInt8)
    (session : Session) {buffer : β} (hnew : buffer ∉ taken) :
  Ledger (taken ++ [buffer]) (gone ++ remoteSendNameFreed h name buffer)
    (remoteSendName data h source name type session buffer).2.held
  := by
  rw [remoteSendNameFreed, remoteSendName]
  dsimp only
  split_ifs
  · rw [List.append_nil, held_setName]
    have hreceived := hl.receive hnew (.inl name)
    simpa only [held, buffers, Option.getD_some, List.map_append, List.map_singleton] using hreceived
  · apply ledger_remoteSendHandle _ _ _ _ _ hnew
    rw [held_setName_of_queue rfl]
    apply hl

/-- A message keeps the ledger when its buffer is new. -/
theorem ledger_mainloop (hl : Ledger taken gone h.held) (m : Message β) (hnew : ∀ b ∈ m.buffers, b ∉ taken) :
  Ledger (taken ++ m.buffers) (gone ++ mainloopFreed data found h m) (mainloop data found h m).2.held
  := by
  cases m with
  | data fd buffer =>
      change Ledger (taken ++ []) _ _
      rw [List.append_nil]
      apply ledger_pushSocketData hl
  | closed fd =>
      change Ledger (taken ++ []) _ _
      rw [List.append_nil, mainloopFreed, List.append_nil, mainloop]
      cases h.slaveOf fd <;> apply hl
  | N name source =>
      change Ledger (taken ++ []) _ _
      rw [List.append_nil]
      apply ledger_commandN hl
  | SA connects fd id =>
      change Ledger (taken ++ []) _ _
      rw [List.append_nil]
      apply ledger_commandSA hl
  | toName source name type session buffer =>
      apply ledger_remoteSendName hl
      apply hnew buffer List.mem_cons_self
  | toHandle source destination type session buffer =>
      apply ledger_remoteSendHandle hl
      apply hnew buffer List.mem_cons_self

end Harbor

end Skynet
