import FWServer.Kernel.BigEndian
import FWServer.Kernel.ChunkQueue
import FWServer.Skynet.MessageQueue

/-!
# The gate

`service-src/service_gate.c` with `service-src/databuffer.h`: the chunks that arrive from a connection are kept
in its buffer, from which frames are read, a header of two or four bytes and a body; the body is sent on to the
broker, to the agent of the connection or to the watchdog.  The header that has been read is remembered until
its body has arrived; 0 stands for none.

One connection is followed.  The pool of the messages that hold the chunks is left out, and the text of a
command is given by what has been read from it.
-/

namespace Skynet

namespace ServiceGate

/-- The styles of headers, by the first letter of the parameters of the gate. -/
inductive Header where
  | S
  | L
  deriving DecidableEq

/-- `header_size` -/
def Header.size : Header → ℕ
  | .S => 2
  | .L => 4

/-- The `int` that the bytes of a header stand for. -/
def Header.parse : Header → List UInt8 → ℤ
  | .S, plen => BigEndian.decode plen
  | .L, plen => LittleEndian.toInt (BigEndian.decode plen)

/-- `struct databuffer` -/
structure Databuffer where
  header : ℤ
  queue : ChunkQueue UInt8

/-- A buffer after `databuffer_clear`. -/
def Databuffer.clear : Databuffer where
  header := 0
  queue := .empty

/-- What the gate does: it reads a header or a body, sends a message, closes the connection. -/
inductive Action where
  | header (plen : List UInt8)
  | body (s : List UInt8)
  | send (m : Send)
  | close (id : ℤ)
  deriving DecidableEq

/-- `struct gate` -/
structure Gate where
  watchdog : ℕ
  broker : ℕ
  client_tag : ℕ
  header_size : Header

/-- `struct connection` -/
structure Connection where
  id : ℤ
  agent : ℕ
  client : ℕ
  buffer : Databuffer

/-- `databuffer_readheader`: what is returned, the buffer after that, and the header if one has been read. -/
def Databuffer.readheader (db : Databuffer) (header_size : Header) : ℤ × Databuffer × List Action :=
  if db.header = 0 then
    if h : db.queue.size < header_size.size then (-1, db, [])
    else
      let (plen, queue) := db.queue.read header_size.size (Nat.le_of_not_lt h)
      let header := header_size.parse plen
      (if queue.size < header then -1 else header, ⟨header, queue⟩, [.header plen])
  else (if db.queue.size < db.header then -1 else db.header, db, [])

section

variable {db db' : Databuffer} {header_size : Header} {size : ℤ} {actions : List Action}

/-- What `databuffer_readheader` returns for the header of a body. -/
def Databuffer.returned (db : Databuffer) : ℤ :=
  if db.queue.size < db.header then -1 else db.header

theorem Databuffer.readheader_remembered (h : db.header ≠ 0) (header_size : Header) :
  db.readheader header_size = (db.returned, db, [])
  := by rw [readheader, if_neg h, returned]

theorem Databuffer.readheader_short (h : db.header = 0) (hshort : db.queue.size < header_size.size) :
  db.readheader header_size = (-1, db, [])
  := by rw [readheader, if_pos h, dif_pos hshort]

theorem Databuffer.readheader_read (h : db.header = 0) (hle : header_size.size ≤ db.queue.size) :
  db.readheader header_size =
    (Databuffer.returned ⟨header_size.parse (db.queue.read _ hle).1, (db.queue.read _ hle).2⟩,
      ⟨header_size.parse (db.queue.read _ hle).1, (db.queue.read _ hle).2⟩,
      [.header (db.queue.read _ hle).1])
  := by
  rw [readheader, if_pos h, dif_neg (Nat.not_lt.mpr hle)]
  rfl

/-- Either there is no header yet, or what is returned is for the header of the buffer. -/
theorem Databuffer.readheader_cases (h : db.readheader header_size = (size, db', actions)) :
  size = -1 ∨ (size = db'.returned ∧ db'.queue.size < db.queue.size + if db.header = 0 then 0 else 1)
  := by
  by_cases hzero : db.header = 0
  · by_cases hshort : db.queue.size < header_size.size
    · rw [readheader_short hzero hshort] at h
      left
      exact (Prod.mk.inj h).1.symm
    · rw [readheader_read hzero (Nat.le_of_not_lt hshort)] at h
      obtain ⟨hsize, hrest⟩ := Prod.mk.inj h
      obtain ⟨rfl, -⟩ := Prod.mk.inj hrest
      have hpos : 0 < header_size.size := by
        cases header_size <;> decide
      right
      use hsize.symm
      rw [if_pos hzero, ChunkQueue.size_read]
      omega
  · rw [readheader_remembered hzero] at h
    obtain ⟨hsize, hrest⟩ := Prod.mk.inj h
    obtain ⟨rfl, -⟩ := Prod.mk.inj hrest
    right
    use hsize.symm
    rw [if_neg hzero]
    exact Nat.lt_succ_self _

/-- A size that is returned is that of a body that has arrived. -/
theorem Databuffer.eq_of_returned (h : size = db.returned) (hsize : 0 ≤ size) :
  size = db.header ∧ db.header ≤ db.queue.size
  := by
  unfold returned at h
  split_ifs at h with hless
  · omega
  · exact ⟨h, Int.not_lt.mp hless⟩

theorem Databuffer.readheader_le (h : db.readheader header_size = (size, db', actions))
    (hsize : 0 < size) :
  size.toNat ≤ db'.queue.size
  := by
  obtain rfl | ⟨hret, -⟩ := readheader_cases h
  · contradiction
  · obtain ⟨heq, hle⟩ := eq_of_returned hret (Int.le_of_lt hsize)
    omega

end

/-- The text before a body that is sent to the watchdog. -/
def dataText (id : ℤ) : List UInt8 :=
  ((toString id ++ " data ").toList.map fun c => UInt8.ofNat c.toNat).take 31

/-- `_forward`: what is done with a body of the given size, and the buffer after that. -/
def forward (g : Gate) (c : Connection) (db : Databuffer) (size : ℕ) (h : size ≤ db.queue.size) :
    List Action × Databuffer :=
  let (temp, queue) := db.queue.read size h
  if g.broker ≠ 0 then
    ([.body temp, .send ⟨0, g.broker, g.client_tag ||| PTYPE_TAG_DONTCOPY, 1, temp⟩],
      { db with queue := queue })
  else if c.agent ≠ 0 then
    ([.body temp, .send ⟨c.client, c.agent, g.client_tag ||| PTYPE_TAG_DONTCOPY, 1, temp⟩],
      { db with queue := queue })
  else if g.watchdog ≠ 0 then
    ([.body temp, .send ⟨0, g.watchdog, PTYPE_TEXT ||| PTYPE_TAG_DONTCOPY, 1, dataText c.id ++ temp⟩],
      { db with queue := queue })
  else ([], db)

/-- One turn of the loop of `dispatch_message`: what is done, the buffer after that, and whether the loop goes
on. -/
def turn (g : Gate) (c : Connection) (db : Databuffer) : List Action × Databuffer × Bool :=
  match hread : db.readheader g.header_size with
  | (size, db, actions) =>
      if size < 0 then (actions, db, false)
      else if hpos : 0 < size then
        if size ≥ 0x1000000 then (actions ++ [.close c.id], .clear, false)
        else
          let (sent, db) := forward g c db size.toNat (Databuffer.readheader_le hread hpos)
          (actions ++ sent, { db with header := 0 }, true)
      else (actions, db, true)

/-- A turn by what is read of the header. -/
theorem turn_eq {g : Gate} {c : Connection} {db db' : Databuffer} {size : ℤ} {actions : List Action}
    (h : db.readheader g.header_size = (size, db', actions)) :
  turn g c db =
    if size < 0 then (actions, db', false)
    else if hpos : 0 < size then
      if size ≥ 0x1000000 then (actions ++ [.close c.id], .clear, false)
      else
        (actions ++ (forward g c db' size.toNat (Databuffer.readheader_le h hpos)).1,
          { (forward g c db' size.toNat (Databuffer.readheader_le h hpos)).2 with header := 0 }, true)
    else (actions, db', true)
  := by
  unfold turn
  split
  next size' db'' actions' hread =>
    obtain ⟨rfl, hrest⟩ := Prod.mk.inj (h.symm.trans hread)
    obtain ⟨rfl, rfl⟩ := Prod.mk.inj hrest
    rfl

/-- What gets less from turn to turn. -/
def Databuffer.weight (db : Databuffer) : ℕ :=
  db.queue.size + if db.header = 0 then 0 else 1

theorem size_forward_le (g : Gate) (c : Connection) (db : Databuffer) (size : ℕ)
    (h : size ≤ db.queue.size) :
  (forward g c db size h).2.queue.size ≤ db.queue.size
  := by
  unfold forward
  split_ifs
  · exact Nat.sub_le _ _
  · exact Nat.sub_le _ _
  · exact Nat.sub_le _ _
  · exact Nat.le_refl _

theorem weight_turn {g : Gate} {c : Connection} {db : Databuffer} (h : (turn g c db).2.2 = true) :
  (turn g c db).2.1.weight < db.weight
  := by
  unfold turn at h ⊢
  split at h
  next size db' actions hread =>
    split_ifs at h ⊢ with hneg hpos hlarge
    · obtain rfl | ⟨hret, hless⟩ := Databuffer.readheader_cases hread
      · contradiction
      · have hle := size_forward_le g c db' size.toNat (Databuffer.readheader_le hread hpos)
        exact Nat.lt_of_le_of_lt hle hless
    · obtain rfl | ⟨hret, hless⟩ := Databuffer.readheader_cases hread
      · contradiction
      · obtain ⟨hsize, -⟩ := Databuffer.eq_of_returned hret (Int.not_lt.mp hneg)
        have hzero : db'.header = 0 := by omega
        rw [Databuffer.weight, if_pos hzero]
        exact hless

/-- The loop of `dispatch_message`. -/
def dispatchLoop (g : Gate) (c : Connection) (db : Databuffer) : List Action × Databuffer :=
  if _h : (turn g c db).2.2 = true then
    let (rest, db') := dispatchLoop g c (turn g c db).2.1
    ((turn g c db).1 ++ rest, db')
  else ((turn g c db).1, (turn g c db).2.1)
termination_by db.weight
decreasing_by exact weight_turn _h

/-- `dispatch_message` -/
def dispatchMessage (g : Gate) (c : Connection) (data : List UInt8) : List Action × Connection :=
  let (actions, buffer) := dispatchLoop g c { c.buffer with queue := c.buffer.queue.push data }
  (actions, { c with buffer := buffer })

end ServiceGate

end Skynet
