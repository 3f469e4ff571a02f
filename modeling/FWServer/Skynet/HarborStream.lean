import FWServer.Kernel.Machine
import FWServer.Kernel.Segments
import FWServer.Skynet.Harbor

/-!
# Streams from other harbors

What a peer writes is the id of its harbor, in one byte, and frames.  However the stream is divided into chunks,
the frames are passed on one by one as soon as they have arrived (`stream_forwarded`); where the id is not the
one expected, the connection is closed and nothing is passed on.
-/

namespace Skynet

namespace Harbor

open Segments

variable {β : Type} {data : β → List UInt8} {found : ℕ → Bool} {h h' : Harbor β} {id fd : ℕ}

/-! ### What holds of every slave -/

/-- A slave waits if it is without a socket, and nothing has been read before the handshake; nothing is queued
for a slave that is connected. -/
structure Slave.Sound (s : Slave β) : Prop where
  wait : s.fd = 0 ↔ s.status = .WAIT
  read : s.status = .WAIT ∨ s.status = .HANDSHAKE → s.read = 0
  queue : s.status = .HEADER ∨ s.status = .CONTENT → s.queue = none

/-- This holds of all slaves. -/
def Sound (h : Harbor β) : Prop :=
  ∀ id, (h.s id).Sound

/-- The harbor as it starts. -/
structure Started (h : Harbor β) : Prop where
  map : ∀ name, h.map name = none
  slave : ∀ id, (h.s id).fd = 0 ∧ (h.s id).queue = none ∧ (h.s id).status = .WAIT ∧ (h.s id).read = 0

/-- The harbor, message after message. -/
def machine (data : β → List UInt8) (found : ℕ → Bool) : Machine (Harbor β) (Message β) where
  init := Started
  step h m := some (mainloop data found h m).2

/-! ### What the functions do -/

@[simp]
theorem setSlave_self (h : Harbor β) (id : ℕ) (s : Slave β) :
  (h.setSlave id s).s id = s
  := Function.update_self _ _ _

theorem setSlave_of_ne {i : ℕ} (hne : i ≠ id) (s : Slave β) :
  (h.setSlave id s).s i = h.s i
  := Function.update_of_ne hne _ _

@[simp]
theorem setSlave_setSlave (h : Harbor β) (id : ℕ) (s s' : Slave β) :
  (h.setSlave id s).setSlave id s' = h.setSlave id s'
  := by
  unfold setSlave
  rw [Function.update_idem]

/-- The messages in the queue of a slave are sent. -/
def flush (data : β → List UInt8) (s : Slave β) : List (Output β) :=
  (s.queue.getD []).flatMap fun m => sendRemote data s.fd m.buffer m.header

/-- There is no queue after that. -/
theorem dispatchQueue_eq (h : Harbor β) (id : ℕ) :
  dispatchQueue data h id = (flush data (h.s id), h.setSlave id { h.s id with queue := none })
  := by
  unfold dispatchQueue flush
  dsimp only
  split
  · next hnone =>
      have hsame : { h.s id with queue := none } = h.s id := by rw [← hnone]
      rw [hnone, hsame, setSlave, Function.update_eq_self]
      rfl
  · next queue hsome =>
      rw [hsome]
      rfl

/-- A slave after the handshake. -/
def shaken (s : Slave β) : Slave β :=
  { s with status := .HEADER, queue := none }

theorem dispatchQueue_header (s : Slave β) :
  dispatchQueue data (h.setSlave id { s with status := .HEADER }) id =
    (flush data s, h.setSlave id (shaken s))
  := by
  rw [dispatchQueue_eq, setSlave_self, setSlave_setSlave]
  rfl

theorem checkId_wrong {remote_id : UInt8} (hid : remote_id.toNat ≠ id) (buffer : List UInt8) :
  checkId data found h id (remote_id :: buffer) = ((closeHarbor h id).1, (closeHarbor h id).2, none)
  := if_pos hid

theorem checkId_end {remote_id : UInt8} (hid : remote_id.toNat = id) :
  checkId data found h id [remote_id] =
    (flush data (h.s id), h.setSlave id (shaken (h.s id)), some [])
  := by
  unfold checkId
  dsimp only
  rw [if_neg (not_not_intro hid), dispatchQueue_header]
  rfl

theorem checkId_header {remote_id : UInt8} (hid : remote_id.toNat = id) {buffer : List UInt8}
    (hmore : buffer ≠ []) :
  checkId data found h id (remote_id :: buffer) =
    (flush data (h.s id) ++ (header found (h.setSlave id (shaken (h.s id))) id buffer).1,
      (header found (h.setSlave id (shaken (h.s id))) id buffer).2)
  := by
  unfold checkId
  dsimp only
  rw [if_neg (not_not_intro hid), dispatchQueue_header]
  dsimp only
  rw [if_neg hmore]

section

variable {buffer : List UInt8}

theorem content_short (hlt : buffer.length < (h.s id).length - (h.s id).read) :
  content found h id buffer =
    ([], h.setSlave id { h.s id with
      recv_buffer := memcpy (h.s id).recv_buffer (h.s id).read buffer
      read := (h.s id).read + buffer.length }, none)
  := if_pos hlt

/-- A frame is complete. -/
theorem content_full (hle : (h.s id).length - (h.s id).read ≤ buffer.length) :
  content found h id buffer =
    (forwardLocal found h (memcpy (h.s id).recv_buffer (h.s id).read
        (buffer.take ((h.s id).length - (h.s id).read))),
      h.setSlave id { h.s id with length := 0, read := 0, recv_buffer := [], status := .HEADER },
      if buffer.drop ((h.s id).length - (h.s id).read) = [] then none
      else some (buffer.drop ((h.s id).length - (h.s id).read)))
  := if_neg (Nat.not_lt.mpr hle)

theorem header_short (hlt : buffer.length < 4 - (h.s id).read) :
  header found h id buffer =
    ([], h.setSlave id { h.s id with
      size := memcpy (h.s id).size (h.s id).read buffer
      read := (h.s id).read + buffer.length }, none)
  := if_pos hlt

/-- The four bytes of a header, once they are there. -/
def sizeBytes (s : Slave β) (buffer : List UInt8) : List UInt8 :=
  memcpy s.size s.read (buffer.take (4 - s.read))

/-- A slave whose header is complete. -/
def headed (s : Slave β) (buffer : List UInt8) : Slave β :=
  { s with
    size := sizeBytes s buffer
    length := BigEndian.decode (((sizeBytes s buffer).drop 1).take 3)
    read := 0
    recv_buffer := List.replicate (BigEndian.decode (((sizeBytes s buffer).drop 1).take 3)) 0
    status := .CONTENT }

theorem header_close (hle : 4 - (h.s id).read ≤ buffer.length)
    (hlong : (sizeBytes (h.s id) buffer).headD 0 ≠ 0) :
  header found h id buffer =
    ((closeHarbor (h.setSlave id { h.s id with size := sizeBytes (h.s id) buffer }) id).1,
      (closeHarbor (h.setSlave id { h.s id with size := sizeBytes (h.s id) buffer }) id).2, none)
  := (if_neg (Nat.not_lt.mpr hle)).trans (if_pos hlong)

theorem header_end (hle : 4 - (h.s id).read ≤ buffer.length)
    (hlong : (sizeBytes (h.s id) buffer).headD 0 = 0) (hend : buffer.drop (4 - (h.s id).read) = []) :
  header found h id buffer = ([], h.setSlave id (headed (h.s id) buffer), none)
  := (if_neg (Nat.not_lt.mpr hle)).trans ((if_neg (not_not_intro hlong)).trans (if_pos hend))

theorem header_content (hle : 4 - (h.s id).read ≤ buffer.length)
    (hlong : (sizeBytes (h.s id) buffer).headD 0 = 0) (hmore : buffer.drop (4 - (h.s id).read) ≠ []) :
  header found h id buffer =
    content found (h.setSlave id (headed (h.s id) buffer)) id (buffer.drop (4 - (h.s id).read))
  := (if_neg (Nat.not_lt.mpr hle)).trans ((if_neg (not_not_intro hlong)).trans (if_neg hmore))

/-- The ways the case `STATUS_HEADER` takes. -/
theorem header_cases (h : Harbor β) (id : ℕ) (buffer : List UInt8) :
  buffer.length < 4 - (h.s id).read ∨
  4 - (h.s id).read ≤ buffer.length ∧ ((sizeBytes (h.s id) buffer).headD 0 ≠ 0 ∨
    (sizeBytes (h.s id) buffer).headD 0 = 0 ∧ (buffer.drop (4 - (h.s id).read) = [] ∨
      buffer.drop (4 - (h.s id).read) ≠ []))
  := by
  rcases Nat.lt_or_ge buffer.length (4 - (h.s id).read) with hlt | hle
  · exact .inl hlt
  · exact .inr ⟨hle, (ne_or_eq _ _).imp_right fun hlong => ⟨hlong, eq_or_ne _ _⟩⟩

end

/-! ### What holds of every slave -/

theorem Sound.setSlave (hs : h.Sound) {s : Slave β} (hsound : s.Sound) :
  (h.setSlave id s).Sound
  := by
  intro i
  rcases eq_or_ne i id with rfl | hne
  · rwa [setSlave_self]
  · rw [setSlave_of_ne hne]
    exact hs i

theorem Slave.Sound.connected {s : Slave β} (hs : s.Sound) (hstatus : s.status ≠ .WAIT) :
  s.fd ≠ 0
  := fun hzero => hstatus (hs.wait.mp hzero)

/-- A slave that is being read from. -/
theorem Slave.sound_of_reading {s : Slave β} (hfd : s.fd ≠ 0)
    (hstatus : s.status = .HEADER ∨ s.status = .CONTENT) (hqueue : s.queue = none) :
  s.Sound
  := by
  constructor
  · apply iff_of_false hfd
    intro hwait
    rcases hstatus with hstatus | hstatus <;> cases hstatus.symm.trans hwait
  · intro hst
    rcases hstatus with hstatus | hstatus <;> rw [hstatus] at hst <;> rcases hst with hst | hst <;>
      contradiction
  · exact fun _ => hqueue

theorem Sound.closeHarbor (hs : h.Sound) (hfd : (h.s id).fd ≠ 0) :
  (closeHarbor h id).2.Sound
  := hs.setSlave ⟨iff_of_false hfd nofun, nofun, nofun⟩

theorem Sound.content (hs : h.Sound) (hstatus : (h.s id).status = .CONTENT) (buffer : List UInt8) :
  (content found h id buffer).2.1.Sound
  := by
  have hfd := (hs id).connected (by rw [hstatus]; exact nofun)
  have hqueue := (hs id).queue (.inr hstatus)
  rcases Nat.lt_or_ge buffer.length ((h.s id).length - (h.s id).read) with hlt | hle
  · rw [content_short hlt]
    exact hs.setSlave (Slave.sound_of_reading hfd (.inr hstatus) hqueue)
  · rw [content_full hle]
    exact hs.setSlave (Slave.sound_of_reading hfd (.inl rfl) hqueue)

theorem Sound.header (hs : h.Sound) (hstatus : (h.s id).status = .HEADER) (buffer : List UInt8) :
  (header found h id buffer).2.1.Sound
  := by
  have hfd := (hs id).connected (by rw [hstatus]; exact nofun)
  have hqueue := (hs id).queue (.inl hstatus)
  have hheaded : (h.setSlave id (headed (h.s id) buffer)).Sound :=
    hs.setSlave (Slave.sound_of_reading hfd (.inr rfl) hqueue)
  obtain hlt | ⟨hle, hlong | ⟨hlong, hend | hmore⟩⟩ := header_cases h id buffer
  · rw [header_short hlt]
    exact hs.setSlave (Slave.sound_of_reading hfd (.inl hstatus) hqueue)
  · rw [header_close hle hlong]
    apply Sound.closeHarbor
    · exact hs.setSlave (Slave.sound_of_reading hfd (.inl hstatus) hqueue)
    · rw [setSlave_self]
      exact hfd
  · rw [header_end hle hlong hend]
    exact hheaded
  · rw [header_content hle hlong hmore]
    apply hheaded.content
    rw [setSlave_self]
    rfl

theorem Sound.shaken (hs : h.Sound) (hfd : (h.s id).fd ≠ 0) :
  (h.setSlave id (shaken (h.s id))).Sound
  := hs.setSlave (Slave.sound_of_reading hfd (.inl rfl) rfl)

theorem Sound.checkId (hs : h.Sound) (hstatus : (h.s id).status = .HANDSHAKE) (buffer : List UInt8) :
  (checkId data found h id buffer).2.1.Sound
  := by
  have hfd := (hs id).connected (by rw [hstatus]; exact nofun)
  cases buffer with
  | nil => exact hs
  | cons remote_id buffer =>
      by_cases hid : remote_id.toNat = id
      · rcases eq_or_ne buffer [] with rfl | hmore
        · rw [checkId_end hid]
          exact hs.shaken hfd
        · rw [checkId_header hid hmore]
          apply (hs.shaken hfd).header
          rw [setSlave_self]
          rfl
      · rw [checkId_wrong hid]
        exact hs.closeHarbor hfd

variable (data found) in
theorem Sound.turn (hs : h.Sound) (id : ℕ) (buffer : List UInt8) :
  (turn data found h id buffer).2.1.Sound
  := by
  unfold Harbor.turn
  split
  · next hstatus => exact hs.checkId hstatus buffer
  · next hstatus => exact hs.header hstatus buffer
  · next hstatus => exact hs.content hstatus buffer
  · exact hs

theorem Sound.pushLoop (hs : h.Sound) (id n : ℕ) (buffer : List UInt8) :
  (pushLoop data found id n h buffer).2.Sound
  := by
  induction n generalizing h buffer with
  | zero => exact hs
  | succ n ih =>
      have hturn := hs.turn data found id buffer
      rw [Harbor.pushLoop]
      split
      · next out h' heq => rwa [heq] at hturn
      · next out h' rest heq =>
          rw [heq] at hturn
          exact ih hturn rest

theorem Sound.remoteSendHandle (hs : h.Sound) (source destination : ℕ) (type : UInt8)
    (session : Session) (buffer : β) :
  (remoteSendHandle data h source destination type session buffer).2.Sound
  := by
  unfold Harbor.remoteSendHandle
  dsimp only
  split_ifs with hlocal hwait hdown
  · exact hs
  · exact hs
  · have hslave := hs (destination >>> HANDLE_REMOTE_SHIFT)
    apply hs.setSlave
    constructor
    · exact hslave.wait
    · exact hslave.read
    · intro hst
      -- a slave that is waited for is not being read from
      rcases hwait with hfd | hshake
      · have hwait := hslave.wait.mp hfd
        rcases hst with hst | hst <;> cases hwait.symm.trans hst
      · rcases hst with hst | hst <;> cases hshake.symm.trans hst
  · exact hs

theorem Sound.dispatchNameQueue (hs : h.Sound) (node : KeyValue β) :
  (dispatchNameQueue data h node).2.Sound
  := by
  have hslave := hs (node.value >>> HANDLE_REMOTE_SHIFT)
  unfold Harbor.dispatchNameQueue
  dsimp only
  split_ifs with hfd hdown hlocal
  · exact hs
  · exact hs.setSlave ⟨hslave.wait, hslave.read, fun _ => rfl⟩
  · apply hs.setSlave
    constructor
    · exact hslave.wait
    · exact hslave.read
    · intro hst
      have hwait := hslave.wait.mp hfd
      rcases hst with hst | hst <;> cases hwait.symm.trans hst
  · exact hs

theorem Sound.mainloop (hs : h.Sound) (m : Message β) :
  (mainloop data found h m).2.Sound
  := by
  cases m with
  | data fd buffer =>
      unfold Harbor.mainloop Harbor.pushSocketData
      dsimp only
      split
      · exact hs
      · exact hs.pushLoop _ _ _
  | closed fd =>
      unfold Harbor.mainloop
      dsimp only
      split <;> exact hs
  | N name source =>
      unfold Harbor.mainloop Harbor.commandN Harbor.updateName
      dsimp only
      split_ifs
      · exact hs
      · split
        · exact hs
        · exact hs.dispatchNameQueue _
  | SA connects fd id =>
      unfold Harbor.mainloop Harbor.commandSA
      dsimp only
      split_ifs with hbad hexists hconnects
      · exact hs
      · exact hs
      · have hfd : fd ≠ 0 := fun hzero => hbad (.inl hzero)
        apply hs.setSlave
        constructor
        · exact iff_of_false hfd (by rintro ⟨⟩)
        · exact fun _ => (hs id).read (.inl ((hs id).wait.mp (not_not.mp hexists)))
        · intro hst
          rcases hst with hst | hst <;> cases hst
      · have hfd : fd ≠ 0 := fun hzero => hbad (.inl hzero)
        rw [dispatchQueue_eq, setSlave_self, setSlave_setSlave]
        exact hs.setSlave (Slave.sound_of_reading hfd (.inl rfl) rfl)
  | toName source name type session buffer =>
      unfold Harbor.mainloop Harbor.remoteSendName
      dsimp only
      split_ifs
      · exact hs
      · exact Sound.remoteSendHandle (h := h.setName name _) hs _ _ _ _ _
  | toHandle source destination type session buffer => exact hs.remoteSendHandle _ _ _ _ _

/-- This holds in every state the harbor reaches. -/
theorem sound_of_reachable (hreach : (machine data found).Reachable h) :
  h.Sound
  := by
  apply Machine.invariant _ _ hreach
  · intro h hstarted id
    obtain ⟨hfd, hqueue, hstatus, hread⟩ := hstarted.slave id
    exact ⟨iff_of_true hfd hstatus, fun _ => hread, fun _ => hqueue⟩
  · intro h m h' hs _ hstep
    obtain rfl := Option.some.inj hstep
    exact hs.mainloop m

/-! ### Frames -/

/-- The bodies that frames may have. -/
def Fits (body : List UInt8) : Prop :=
  HEADER_COOKIE_LENGTH ≤ body.length ∧ body.length < 0x1000000

instance (body : List UInt8) : Decidable (Fits body) :=
  inferInstanceAs (Decidable (_ ∧ _))

/-- A frame. -/
def frame (body : List UInt8) : List UInt8 :=
  BigEndian.encode 4 body.length ++ body

def frameLength (body : List UInt8) : ℕ :=
  4 + body.length

/-- What has been read of the frames that come next: a part of a header, or a header and a part of a body. -/
inductive Reading (s : Slave β) : List (List UInt8) → List UInt8 → Prop
  | header {rest : List (List UInt8)} {p : List UInt8} (hstatus : s.status = .HEADER)
      (hread : s.read < 4) (hp : s.size.take s.read = p) (hlength : p.length = s.read) : Reading s rest p
  | content {b : List UInt8} {rest : List (List UInt8)} {p : List UInt8} (hstatus : s.status = .CONTENT)
      (hbody : s.length = b.length) (hread : s.read < b.length) (hp : s.recv_buffer.take s.read = p)
      (hlength : p.length = s.read) (hbuffer : s.recv_buffer.length = b.length) :
      Reading s (b :: rest) (BigEndian.encode 4 b.length ++ p)

/-- The frames `taken` are passed on, and what is left of the buffer is `more`. -/
structure Passed (found : ℕ → Bool) (h : Harbor β) (id : ℕ) (rest : List (List UInt8))
    (p buffer future : List UInt8) (out : List (Output β)) (h' : Harbor β) (more : Option (List UInt8))
    (taken rest' : List (List UInt8)) (p' : List UInt8) (s : Slave β) : Prop where
  frames : rest = taken ++ rest'
  out : out = taken.flatMap (forwardLocal found h)
  harbor : h' = h.setSlave id s
  fd : s.fd = (h.s id).fd
  reading : Reading s rest' p'
  stream : p' ++ (more.getD [] ++ future) = rest'.flatMap frame
  length : total frameLength taken + (p'.length + (more.getD []).length) = p.length + buffer.length
  less : ∀ r, more = some r → r.length < buffer.length

theorem take_memcpy {buf bytes : List UInt8} {i : ℕ} (h : (buf.take i).length = i) :
  (memcpy buf i bytes).take (i + bytes.length) = buf.take i ++ bytes
  := by
  have hlength : (buf.take i ++ bytes).length = i + bytes.length := by
    rw [List.length_append, h]
  rw [memcpy, ← hlength, List.take_left]

theorem length_memcpy {buf bytes : List UInt8} {i : ℕ} (h : i + bytes.length ≤ buf.length) :
  (memcpy buf i bytes).length = buf.length
  := by
  rw [memcpy, List.length_append, List.length_append, List.length_take, List.length_drop]
  omega

/-- What comes first of a stream is taken off the front when it has arrived. -/
theorem front {p xs ys b zs : List UInt8} (h : p ++ (xs ++ ys) = b ++ zs) (hp : p.length ≤ b.length)
    (hle : b.length - p.length ≤ xs.length) :
  p ++ xs.take (b.length - p.length) = b ∧ xs.drop (b.length - p.length) ++ ys = zs
  := by
  rw [← List.append_assoc] at h
  have hlength : b.length ≤ (p ++ xs).length := by
    rw [List.length_append]
    omega
  have htake := congrArg (List.take b.length) h
  have hdrop := congrArg (List.drop b.length) h
  rw [List.take_append_of_le_length hlength, List.take_left, List.take_append,
    List.take_of_length_le hp] at htake
  rw [List.drop_append_of_le_length hlength, List.drop_left, List.drop_append,
    List.drop_of_length_le hp, List.nil_append] at hdrop
  exact ⟨htake, hdrop⟩

/-! ### Headers -/

section

variable {n : ℕ} {p buffer future after : List UInt8}

/-- A part of a header has been read. -/
structure Slave.PartHeader (s : Slave β) (p : List UInt8) : Prop where
  status : s.status = .HEADER
  read : s.read < 4
  part : s.size.take s.read = p
  length : p.length = s.read

/-- The four bytes of a header, and whatever comes after them in the array. -/
theorem sizeBytes_eq {s : Slave β} (hpart : s.PartHeader p)
    (hstream : p ++ (buffer ++ future) = BigEndian.encode 4 n ++ after) (hle : 4 - s.read ≤ buffer.length) :
  ∃ junk, sizeBytes s buffer = BigEndian.encode 4 n ++ junk
  := by
  have hsize : (BigEndian.encode 4 n).length = 4 := BigEndian.length_encode 4 n
  have hread := hpart.read
  have hlength := hpart.length
  obtain ⟨hbytes, -⟩ := front hstream (by omega) (by omega)
  have hneed : (BigEndian.encode 4 n).length - p.length = 4 - s.read := by rw [hsize, hlength]
  rw [hneed] at hbytes
  rw [sizeBytes, memcpy, hpart.part, hbytes]
  exact ⟨_, rfl⟩

theorem headD_sizeBytes {s : Slave β} {junk : List UInt8} (hjunk : sizeBytes s buffer = BigEndian.encode 4 n ++ junk) :
  (sizeBytes s buffer).headD 0 = (BigEndian.encode 4 n).headD 0
  := by
  obtain ⟨a, t, ht⟩ : ∃ a t, BigEndian.encode 4 n = a :: t := by
    apply List.exists_cons_of_length_pos
    rw [BigEndian.length_encode]
    decide
  rw [hjunk, ht]
  rfl

/-- The count in a header of less than 16 MB, and what comes after it. -/
theorem Slave.PartHeader.counted {s : Slave β} (hpart : s.PartHeader p) (hn : n < 0x1000000)
    (hstream : p ++ (buffer ++ future) = BigEndian.encode 4 n ++ after) (hle : 4 - s.read ≤ buffer.length) :
  (sizeBytes s buffer).headD 0 = 0 ∧ BigEndian.decode (((sizeBytes s buffer).drop 1).take 3) = n ∧
    buffer.drop (4 - s.read) ++ future = after
  := by
  have hsize : (BigEndian.encode 4 n).length = 4 := BigEndian.length_encode 4 n
  have hread := hpart.read
  have hlength := hpart.length
  obtain ⟨junk, hjunk⟩ := sizeBytes_eq hpart hstream hle
  refine ⟨?_, ?_, ?_⟩
  · rw [headD_sizeBytes hjunk, BigEndian.encode_succ_of_lt hn]
    rfl
  · have hthree : ((0 :: BigEndian.encode 3 n ++ junk).drop 1).take 3 = BigEndian.encode 3 n :=
      List.take_left' (BigEndian.length_encode 3 n)
    rw [hjunk, BigEndian.encode_succ_of_lt hn, hthree, BigEndian.decode_encode hn]
  · obtain ⟨-, hdrop⟩ := front hstream (by omega) (by omega)
    rwa [hsize, hlength] at hdrop

/-- A part of a header is kept until the rest of it arrives. -/
theorem header_part (found : ℕ → Bool) (hpart : (h.s id).PartHeader p) (hlt : buffer.length < 4 - (h.s id).read) :
  ∃ s, header found h id buffer = ([], h.setSlave id s, none) ∧ s.fd = (h.s id).fd ∧ s.PartHeader (p ++ buffer)
  := by
  have hlength' : ((h.s id).size.take (h.s id).read).length = (h.s id).read := by rw [hpart.part, hpart.length]
  refine ⟨_, header_short hlt, rfl, hpart.status, ?_, ?_, ?_⟩
  · dsimp only
    omega
  · exact (take_memcpy hlength').trans (by rw [hpart.part])
  · rw [List.length_append, hpart.length]

end

/-! ### What is passed on -/

section

variable {rest : List (List UInt8)} {b p buffer future : List UInt8}

/-- A body, or a part of it, is read. -/
theorem content_passed (hstatus : (h.s id).status = .CONTENT) (hbody : (h.s id).length = b.length)
    (hread : (h.s id).read < b.length) (hp : (h.s id).recv_buffer.take (h.s id).read = p)
    (hlength : p.length = (h.s id).read) (hbuffer : (h.s id).recv_buffer.length = b.length)
    (hstream : p ++ (buffer ++ future) = b ++ rest.flatMap frame) :
  ∃ taken rest' p' s, Passed found h id (b :: rest) (BigEndian.encode 4 b.length ++ p) buffer future
    (content found h id buffer).1 (content found h id buffer).2.1 (content found h id buffer).2.2
    taken rest' p' s
  := by
  have hlength' : ((h.s id).recv_buffer.take (h.s id).read).length = (h.s id).read := by rw [hp, hlength]
  rcases Nat.lt_or_ge buffer.length ((h.s id).length - (h.s id).read) with hlt | hle
  · have hpart : (memcpy (h.s id).recv_buffer (h.s id).read buffer).take ((h.s id).read + buffer.length) =
        p ++ buffer := by rw [take_memcpy hlength', hp]
    rw [content_short hlt]
    refine ⟨[], b :: rest, BigEndian.encode 4 b.length ++ (p ++ buffer), { h.s id with
      recv_buffer := memcpy (h.s id).recv_buffer (h.s id).read buffer
      read := (h.s id).read + buffer.length }, ?_⟩
    constructor
    · rfl
    · rfl
    · rfl
    · rfl
    · apply Reading.content
      · exact hstatus
      · exact hbody
      · dsimp only
        omega
      · exact hpart
      · rw [List.length_append, hlength]
      · rw [length_memcpy (by omega), hbuffer]
    · rw [List.flatMap_cons, frame, List.append_assoc, List.append_assoc, List.append_assoc, ← hstream]
      rfl
    · simp only [total_nil, List.length_append, Option.getD_none, List.length_nil]
      omega
    · exact nofun
  · have hneed : (h.s id).length - (h.s id).read = b.length - p.length := by rw [hbody, hlength]
    rw [hneed] at hle
    obtain ⟨hbytes, hdrop⟩ := front hstream (by omega) hle
    have htake : (buffer.take (b.length - p.length)).length = b.length - p.length :=
      List.length_take_of_le hle
    have hfull : memcpy (h.s id).recv_buffer (h.s id).read (buffer.take (b.length - p.length)) = b := by
      have hend : (h.s id).recv_buffer.drop ((h.s id).read + (buffer.take (b.length - p.length)).length) =
          [] := by
        apply List.drop_of_length_le
        omega
      rw [memcpy, hend, List.append_nil, hp, hbytes]
    rw [content_full (hneed ▸ hle), hneed, hfull]
    refine ⟨[b], rest, [], { h.s id with
      length := 0, read := 0, recv_buffer := [], status := .HEADER }, ?_⟩
    have hmore : (if buffer.drop (b.length - p.length) = [] then none
        else some (buffer.drop (b.length - p.length))).getD [] = buffer.drop (b.length - p.length) := by
      split_ifs with hend
      · exact hend.symm
      · rfl
    constructor
    · rfl
    · rw [List.flatMap_singleton]
    · rfl
    · rfl
    · exact .header rfl (Nat.zero_lt_succ 3) rfl rfl
    · rw [List.nil_append, hmore]
      exact hdrop
    · rw [hmore, total_cons, total_nil, frameLength, List.length_append, BigEndian.length_encode,
        List.length_nil, List.length_drop]
      omega
    · intro r hr
      split_ifs at hr
      rw [← Option.some.inj hr, List.length_drop]
      omega

/-- A part of a header is read. -/
theorem header_part_passed (hpart : (h.s id).PartHeader p) (hlt : buffer.length < 4 - (h.s id).read)
    (hstream : p ++ (buffer ++ future) = rest.flatMap frame) :
  ∃ taken rest' p' s, Passed found h id rest p buffer future
    (header found h id buffer).1 (header found h id buffer).2.1 (header found h id buffer).2.2
    taken rest' p' s
  := by
  obtain ⟨s, hheader, hfd, hpart'⟩ := header_part found hpart hlt
  rw [hheader]
  refine ⟨[], rest, p ++ buffer, s, ?_⟩
  constructor
  · rfl
  · rfl
  · rfl
  · exact hfd
  · exact .header hpart'.status hpart'.read hpart'.part hpart'.length
  · rw [List.append_assoc]
    exact hstream
  · rw [total_nil, List.length_append, Nat.zero_add]
    rfl
  · exact nofun

/-- A header is read, and nothing more. -/
theorem header_end_passed (hb : Fits b) (hpart : (h.s id).PartHeader p) (hle : 4 - (h.s id).read ≤ buffer.length)
    (hend : buffer.drop (4 - (h.s id).read) = []) (hstream : p ++ (buffer ++ future) = (b :: rest).flatMap frame) :
  ∃ taken rest' p' s, Passed found h id (b :: rest) p buffer future
    (header found h id buffer).1 (header found h id buffer).2.1 (header found h id buffer).2.2
    taken rest' p' s
  := by
  have hread := hpart.read
  have hlength := hpart.length
  have hsize : (BigEndian.encode 4 b.length).length = 4 := BigEndian.length_encode _ _
  have hpos : 0 < b.length := Nat.lt_of_lt_of_le (by decide) hb.1
  rw [List.flatMap_cons, frame, List.append_assoc] at hstream
  obtain ⟨hzero, hcount, hdrop⟩ := hpart.counted hb.2 hstream hle
  rw [header_end hle hzero hend]
  refine ⟨[], b :: rest, BigEndian.encode 4 b.length ++ [], headed (h.s id) buffer, ?_⟩
  constructor
  · rfl
  · rfl
  · rfl
  · rfl
  · exact .content rfl hcount hpos rfl rfl (by rw [← hcount]; exact List.length_replicate)
  · rw [hend] at hdrop
    rw [List.flatMap_cons, frame, List.append_assoc, List.append_assoc, ← hdrop]
    rfl
  · have hdropped := congrArg List.length hend
    rw [List.length_drop, List.length_nil] at hdropped
    simp only [total_nil, List.length_append, Option.getD_none, List.length_nil, hsize]
    omega
  · exact nofun

/-- A header is read, and what comes after it. -/
theorem header_content_passed (hb : Fits b) (hpart : (h.s id).PartHeader p) (hle : 4 - (h.s id).read ≤ buffer.length)
    (hmore : buffer.drop (4 - (h.s id).read) ≠ []) (hstream : p ++ (buffer ++ future) = (b :: rest).flatMap frame) :
  ∃ taken rest' p' s, Passed found h id (b :: rest) p buffer future
    (header found h id buffer).1 (header found h id buffer).2.1 (header found h id buffer).2.2
    taken rest' p' s
  := by
  have hread := hpart.read
  have hlength := hpart.length
  have hsize : (BigEndian.encode 4 b.length).length = 4 := BigEndian.length_encode _ _
  have hpos : 0 < b.length := Nat.lt_of_lt_of_le (by decide) hb.1
  rw [List.flatMap_cons, frame, List.append_assoc] at hstream
  obtain ⟨hzero, hcount, hdrop⟩ := hpart.counted hb.2 hstream hle
  rw [header_content hle hzero hmore]
  have hself : (h.setSlave id (headed (h.s id) buffer)).s id = headed (h.s id) buffer := setSlave_self _ _ _
  obtain ⟨taken, rest', p', s, hpassed⟩ : ∃ taken rest' p' s,
      Passed found (h.setSlave id (headed (h.s id) buffer)) id (b :: rest)
        (BigEndian.encode 4 b.length ++ []) (buffer.drop (4 - (h.s id).read)) future
        (content found (h.setSlave id (headed (h.s id) buffer)) id (buffer.drop (4 - (h.s id).read))).1
        (content found (h.setSlave id (headed (h.s id) buffer)) id (buffer.drop (4 - (h.s id).read))).2.1
        (content found (h.setSlave id (headed (h.s id) buffer)) id (buffer.drop (4 - (h.s id).read))).2.2
        taken rest' p' s := by
    refine content_passed ?_ ?_ ?_ ?_ ?_ ?_ hdrop
    all_goals rw [hself]
    · rfl
    · exact hcount
    · exact hpos
    · rfl
    · rfl
    · rw [← hcount]
      exact List.length_replicate
  refine ⟨taken, rest', p', s, ?_⟩
  constructor
  · exact hpassed.frames
  · exact hpassed.out
  · rw [hpassed.harbor, setSlave_setSlave]
  · rw [hpassed.fd, hself]
    rfl
  · exact hpassed.reading
  · exact hpassed.stream
  · rw [hpassed.length, List.append_nil, hsize, List.length_drop]
    omega
  · intro r hr
    have hless := hpassed.less r hr
    rw [List.length_drop] at hless
    omega

/-- A header, or a part of it, is read, and what comes after it. -/
theorem header_passed (hrest : ∀ b ∈ rest, Fits b) (hpart : (h.s id).PartHeader p)
    (hstream : p ++ (buffer ++ future) = rest.flatMap frame) :
  ∃ taken rest' p' s, Passed found h id rest p buffer future
    (header found h id buffer).1 (header found h id buffer).2.1 (header found h id buffer).2.2
    taken rest' p' s
  := by
  rcases Nat.lt_or_ge buffer.length (4 - (h.s id).read) with hlt | hle
  · exact header_part_passed hpart hlt hstream
  · cases rest with
    | nil =>
        -- four bytes have arrived, but the stream has ended
        have hread := hpart.read
        have hlength := hpart.length
        have hnil := congrArg List.length hstream
        rw [List.length_append, List.length_append, List.flatMap_nil, List.length_nil] at hnil
        omega
    | cons b rest =>
        have hb := hrest b List.mem_cons_self
        rcases eq_or_ne (buffer.drop (4 - (h.s id).read)) [] with hend | hmore
        · exact header_end_passed hb hpart hle hend hstream
        · exact header_content_passed hb hpart hle hmore hstream

/-! ### Chunks -/

variable (data) in
theorem turn_passed (hrest : ∀ b ∈ rest, Fits b) (hreading : Reading (h.s id) rest p)
    (hstream : p ++ (buffer ++ future) = rest.flatMap frame) :
  ∃ taken rest' p' s, Passed found h id rest p buffer future (turn data found h id buffer).1
    (turn data found h id buffer).2.1 (turn data found h id buffer).2.2 taken rest' p' s
  := by
  cases hreading with
  | header hstatus hread hp hlength =>
      have hturn : turn data found h id buffer = header found h id buffer := by
        rw [turn, hstatus]
      rw [hturn]
      exact header_passed hrest ⟨hstatus, hread, hp, hlength⟩ hstream
  | content hstatus hbody hread hp hlength hbuffer =>
      have hturn : turn data found h id buffer = content found h id buffer := by
        rw [turn, hstatus]
      rw [hturn]
      apply content_passed hstatus hbody hread hp hlength hbuffer
      rw [List.flatMap_cons, frame, List.append_assoc, List.append_assoc] at hstream
      exact List.append_cancel_left hstream

theorem Passed.trans {out out' : List (Output β)} {h'' : Harbor β} {r p' p'' : List UInt8}
    {taken taken' rest' rest'' : List (List UInt8)} {s s' : Slave β}
    (hfirst : Passed found h id rest p buffer future out h' (some r) taken rest' p' s)
    (hthen : Passed found h' id rest' p' r future out' h'' none taken' rest'' p'' s') :
  Passed found h id rest p buffer future (out ++ out') h'' none (taken ++ taken') rest'' p'' s'
  := by
  have hharbor := hfirst.harbor
  subst hharbor
  constructor
  · rw [hfirst.frames, hthen.frames, List.append_assoc]
  · rw [List.flatMap_append, hfirst.out, hthen.out]
    rfl
  · rw [hthen.harbor, setSlave_setSlave]
  · rw [hthen.fd, setSlave_self, hfirst.fd]
  · exact hthen.reading
  · exact hthen.stream
  · have hlength := hfirst.length
    rw [total_append, Nat.add_assoc, hthen.length]
    exact hlength
  · exact nofun

theorem Passed.fits {out : List (Output β)} {more : Option (List UInt8)} {p' : List UInt8}
    {taken rest' : List (List UInt8)} {s : Slave β}
    (hpassed : Passed found h id rest p buffer future out h' more taken rest' p' s)
    (hrest : ∀ b ∈ rest, Fits b) :
  ∀ b ∈ rest', Fits b
  := by
  intro b hb
  apply hrest b
  rw [hpassed.frames]
  exact List.mem_append_right _ hb

/-- What is left of the stream is read as what is left of the buffer arrives. -/
theorem Passed.at_harbor {out : List (Output β)} {more : Option (List UInt8)} {p' : List UInt8}
    {taken rest' : List (List UInt8)} {s : Slave β}
    (hpassed : Passed found h id rest p buffer future out h' more taken rest' p' s) :
  Reading (h'.s id) rest' p'
  := by
  rw [hpassed.harbor, setSlave_self]
  exact hpassed.reading

variable (data found) in
/-- The loop reads the whole buffer. -/
theorem pushLoop_passed {n : ℕ} (hn : buffer.length < n) (hrest : ∀ b ∈ rest, Fits b)
    (hreading : Reading (h.s id) rest p) (hstream : p ++ (buffer ++ future) = rest.flatMap frame) :
  ∃ taken rest' p' s, Passed found h id rest p buffer future (pushLoop data found id n h buffer).1
    (pushLoop data found id n h buffer).2 none taken rest' p' s
  := by
  induction n generalizing h rest p buffer with
  | zero => exact absurd hn (Nat.not_lt_zero _)
  | succ n ih =>
      obtain ⟨taken, rest', p', s, hpassed⟩ := turn_passed data hrest hreading hstream
      rw [pushLoop]
      split
      · next out h' heq =>
          rw [heq] at hpassed
          exact ⟨taken, rest', p', s, hpassed⟩
      · next out h' r heq =>
          rw [heq] at hpassed
          have hn' : r.length < n := Nat.lt_of_lt_of_le (hpassed.less r rfl) (Nat.le_of_lt_succ hn)
          obtain ⟨taken', rest'', p'', s', hpassed'⟩ := ih hn' (hpassed.fits hrest)
            hpassed.at_harbor hpassed.stream
          exact ⟨_, _, _, _, hpassed.trans hpassed'⟩

/-- Less than the next frame has been read. -/
theorem Reading.arrived_eq {s : Slave β} (hreading : Reading s rest p) :
  arrived frameLength p.length rest = []
  := by
  cases hreading with
  | header hstatus hread hp hlength =>
      cases rest with
      | nil => exact arrived_nil _
      | cons b rest =>
          apply arrived_of_lt
          unfold frameLength
          omega
  | content hstatus hbody hread hp hlength hbuffer =>
      apply arrived_of_lt
      rw [List.length_append, BigEndian.length_encode, frameLength]
      omega

/-- What is passed on of the frames is what has arrived of them, if it is so from then on. -/
theorem Passed.followed {out out' : List (Output β)} {p' : List UInt8} {taken rest' : List (List UInt8)}
    {s : Slave β} {n : ℕ} (hpassed : Passed found h id rest p buffer future out h' none taken rest' p' s)
    (hout : out' = (arrived frameLength (p'.length + n) rest').flatMap (forwardLocal found h')) :
  out ++ out' =
    (arrived frameLength (p.length + (buffer.length + n)) rest).flatMap (forwardLocal found h)
  := by
  have hlength : p.length + (buffer.length + n) = total frameLength taken + (p'.length + n) := by
    have hlength := hpassed.length
    rw [Option.getD_none, List.length_nil, Nat.add_zero] at hlength
    omega
  have hharbor := hpassed.harbor
  subst hharbor
  rw [hlength, hpassed.frames, arrived_append, List.flatMap_append, hpassed.out, hout]
  rfl

theorem slaveOf_setSlave {s : Slave β} (hfd : s.fd = (h.s id).fd) (fd : ℕ) :
  (h.setSlave id s).slaveOf fd = h.slaveOf fd
  := by
  unfold slaveOf
  congr 1
  funext i
  rcases eq_or_ne i id with rfl | hne
  · rw [setSlave_self, hfd]
  · rw [setSlave_of_ne hne]

end

/-- Chunks that arrive from a socket, one after another. -/
def pushAll (data : β → List UInt8) (found : ℕ → Bool) (fd : ℕ) (h : Harbor β) :
    List (List UInt8) → List (Output β) × Harbor β
  | [] => ([], h)
  | c :: cs =>
      let (out, h) := pushSocketData data found h fd c
      let (out', h) := pushAll data found fd h cs
      (out ++ out', h)

theorem pushSocketData_of_slave (hid : h.slaveOf fd = some id) (buffer : List UInt8) :
  pushSocketData data found h fd buffer = pushLoop data found id (buffer.length + 2) h buffer
  := by rw [pushSocketData, hid]

variable (data found) in
/-- After the handshake, the frames that have arrived are passed on. -/
theorem pushAll_reading {chunks rest : List (List UInt8)} {p after : List UInt8}
    (hid : h.slaveOf fd = some id) (hrest : ∀ b ∈ rest, Fits b) (hreading : Reading (h.s id) rest p)
    (hstream : p ++ (chunks.flatten ++ after) = rest.flatMap frame) :
  (pushAll data found fd h chunks).1 =
    (arrived frameLength (p.length + chunks.flatten.length) rest).flatMap (forwardLocal found h)
  := by
  induction chunks generalizing h rest p with
  | nil =>
      rw [List.flatten_nil, List.length_nil, Nat.add_zero, hreading.arrived_eq]
      rfl
  | cons c cs ih =>
      rw [List.flatten_cons, List.append_assoc] at hstream
      obtain ⟨taken, rest', p', s, hpassed⟩ := pushLoop_passed data found
        (Nat.lt_add_of_pos_right (Nat.zero_lt_two)) hrest hreading hstream
      rw [pushAll, pushSocketData_of_slave hid]
      have hid' : (pushLoop data found id (c.length + 2) h c).2.slaveOf fd = some id := by
        rw [hpassed.harbor, slaveOf_setSlave hpassed.fd, hid]
      have hcs := ih hid' (hpassed.fits hrest) hpassed.at_harbor hpassed.stream
      rw [List.flatten_cons, List.length_append]
      exact hpassed.followed hcs

/-! ### The handshake -/

theorem slaveOf_spec (hid : h.slaveOf fd = some id) :
  (1 ≤ id ∧ id < REMOTE_MAX) ∧ (h.s id).fd = fd
  := by
  have hmem := List.mem_range'_1.mp (List.mem_of_find?_eq_some hid)
  have hfd := List.find?_some hid
  constructor
  · exact ⟨hmem.1, by omega⟩
  · exact of_decide_eq_true hfd

theorem turn_handshake (hstatus : (h.s id).status = .HANDSHAKE) (buffer : List UInt8) :
  turn data found h id buffer = checkId data found h id buffer
  := by rw [turn, hstatus]

variable (data found) in
/-- After the expected id, the rest of the chunk is read as if it had arrived by itself. -/
theorem pushLoop_shaken {remote_id : UInt8} (hstatus : (h.s id).status = .HANDSHAKE)
    (hid : remote_id.toNat = id) (tail : List UInt8) :
  ∃ n, tail.length < n ∧ pushLoop data found id (tail.length + 3) h (remote_id :: tail) =
    (flush data (h.s id) ++ (pushLoop data found id n (h.setSlave id (shaken (h.s id))) tail).1,
      (pushLoop data found id n (h.setSlave id (shaken (h.s id))) tail).2)
  := by
  rcases eq_or_ne tail [] with rfl | hmore
  · refine ⟨2, Nat.zero_lt_two, ?_⟩
    rw [pushLoop, turn_handshake hstatus, checkId_end hid]
    rfl
  · refine ⟨tail.length + 3, by omega, ?_⟩
    have hturn : turn data found (h.setSlave id (shaken (h.s id))) id tail =
        header found (h.setSlave id (shaken (h.s id))) id tail := by
      rw [turn, setSlave_self]
      rfl
    rw [pushLoop, turn_handshake hstatus, checkId_header hid hmore, pushLoop, hturn]
    rcases header found (h.setSlave id (shaken (h.s id))) id tail with ⟨out, h', _ | r⟩
    · rfl
    · dsimp only
      rw [List.append_assoc]

/-- What waits for the slave is sent, and the frames that arrive are passed on. -/
theorem pushAll_shaken {chunks bodies : List (List UInt8)} {c after : List UInt8}
    (hid : h.slaveOf fd = some id) (hstatus : (h.s id).status = .HANDSHAKE) (hread : (h.s id).read = 0)
    (hbodies : ∀ b ∈ bodies, Fits b) (hc : c ≠ [])
    (hstream : (c :: chunks).flatten ++ after = UInt8.ofNat id :: bodies.flatMap frame) :
  (pushAll data found fd h (c :: chunks)).1 = flush data (h.s id) ++
    (arrived frameLength ((c :: chunks).flatten.length - 1) bodies).flatMap (forwardLocal found h)
  := by
  obtain ⟨remote_id, tail, rfl⟩ := List.exists_cons_of_ne_nil hc
  rw [List.flatten_cons, List.cons_append, List.cons_append] at hstream
  obtain ⟨hremote, hstream⟩ := List.cons.inj hstream
  have hremote_id : remote_id.toNat = id := by
    rw [hremote]
    exact Nat.mod_eq_of_lt (slaveOf_spec hid).1.2
  rw [List.append_assoc] at hstream
  obtain ⟨n, hn, hloop⟩ := pushLoop_shaken data found hstatus hremote_id tail
  have hreading : Reading ((h.setSlave id (shaken (h.s id))).s id) bodies [] := by
    rw [setSlave_self]
    apply Reading.header
    · rfl
    · rw [shaken, hread]
      decide
    · rw [shaken, hread]
      rfl
    · exact hread.symm
  obtain ⟨taken, rest, p, s, hpassed⟩ := pushLoop_passed data found hn hbodies
    hreading hstream
  have hid' : (pushLoop data found id n (h.setSlave id (shaken (h.s id))) tail).2.slaveOf fd =
      some id := by
    have hsame : (shaken (h.s id)).fd = (h.s id).fd := rfl
    rw [hpassed.harbor, slaveOf_setSlave hpassed.fd, slaveOf_setSlave hsame, hid]
  have hcs := pushAll_reading data found hid' (hpassed.fits hbodies)
    hpassed.at_harbor hpassed.stream
  have hlength : ((remote_id :: tail) :: chunks).flatten.length - 1 =
      ([] : List UInt8).length + (tail.length + chunks.flatten.length) := by
    rw [List.flatten_cons, List.length_append, List.length_cons, List.length_nil]
    omega
  have hfollowed := hpassed.followed hcs
  rw [pushAll, pushSocketData_of_slave hid, List.length_cons, hloop, hlength]
  dsimp only
  rw [List.append_assoc, hfollowed]
  rfl

/-! ### Headers of messages -/

/-- The fields are of type `uint32_t`. -/
structure Header.Fits (header : Header) : Prop where
  source : header.source < 256 ^ 4
  destination : header.destination < 256 ^ 4
  session : header.session < 256 ^ 4

theorem length_headerToMessage (header : Header) :
  (headerToMessage header).length = HEADER_COOKIE_LENGTH
  := by
  rw [headerToMessage, List.length_append, List.length_append, BigEndian.length_encode,
    BigEndian.length_encode, BigEndian.length_encode]

theorem messageToHeader_headerToMessage {header : Header} (hfits : header.Fits) :
  messageToHeader (headerToMessage header) = header
  := by
  have hfour (n : ℕ) : (BigEndian.encode 4 n).length = 4 := BigEndian.length_encode 4 n
  have hsession : (headerToMessage header).drop 8 = BigEndian.encode 4 header.session := by
    apply List.drop_left'
    rw [List.length_append, hfour, hfour]
  have hdestination : (headerToMessage header).drop 4 =
      BigEndian.encode 4 header.destination ++ BigEndian.encode 4 header.session := by
    rw [headerToMessage, List.append_assoc]
    exact List.drop_left' (hfour _)
  have hsource : (headerToMessage header).take 4 = BigEndian.encode 4 header.source := by
    rw [headerToMessage, List.append_assoc]
    exact List.take_left' (hfour _)
  rw [messageToHeader, hsession, hdestination, hsource, List.take_left' (hfour _),
    List.take_of_length_le (hfour _).le, BigEndian.decode_encode hfits.source,
    BigEndian.decode_encode hfits.destination, BigEndian.decode_encode hfits.session]

/-- The destination in this node that is written in a header. -/
def here (h : Harbor β) (header : Header) : ℕ :=
  (header.destination &&& HANDLE_MASK) ||| (h.id <<< HANDLE_REMOTE_SHIFT)

/-- What is put out for a message with a header: the message, and an error to its source if there is nobody
to take it or its session is negative, and it is not an error itself. -/
def delivered (found : ℕ → Bool) (h : Harbor β) (msg : List UInt8) (header : Header) : List (Output β) :=
  .send ⟨header.source, here h header,
    (header.destination >>> HANDLE_REMOTE_SHIFT) ||| PTYPE_TAG_DONTCOPY,
    LittleEndian.toInt header.session, msg⟩ ::
  if (found (here h header) = true ∧ 0 ≤ LittleEndian.toInt header.session) ∨
      header.destination >>> HANDLE_REMOTE_SHIFT = PTYPE_ERROR then []
  else [.send ⟨here h header, header.source, PTYPE_ERROR, LittleEndian.toInt header.session, []⟩]

/-- A message is delivered with what was written in its header. -/
theorem forwardLocal_headerToMessage {header : Header} (hfits : header.Fits) (msg : List UInt8) :
  forwardLocal found h (msg ++ headerToMessage header) = delivered found h msg header
  := by
  have hsize : (msg ++ headerToMessage header).length - HEADER_COOKIE_LENGTH = msg.length := by
    rw [List.length_append, length_headerToMessage, Nat.add_sub_cancel]
  unfold forwardLocal delivered here
  dsimp only
  rw [hsize, List.drop_left, List.take_left, messageToHeader_headerToMessage hfits]
  by_cases hfound : found ((header.destination &&& HANDLE_MASK) ||| (h.id <<< HANDLE_REMOTE_SHIFT)) = true ∧
      0 ≤ LittleEndian.toInt header.session
  · rw [if_pos hfound, if_pos (.inl hfound)]
  · by_cases herror : header.destination >>> HANDLE_REMOTE_SHIFT = PTYPE_ERROR
    · rw [if_neg hfound, if_neg (not_not_intro herror), if_pos (.inr herror)]
    · rw [if_neg hfound, if_pos herror, if_neg (not_or.mpr ⟨hfound, herror⟩)]

/-! ### Another id -/

/-- A slave that is down is never changed. -/
structure Slave.Down (s : Slave β) : Prop where
  status : s.status = .DOWN
  fd : s.fd ≠ 0

section

variable {i : ℕ}

theorem closeHarbor_of_ne (hne : i ≠ id) :
  (closeHarbor h id).2.s i = h.s i
  := setSlave_of_ne hne _

theorem content_of_ne (hne : i ≠ id) (buffer : List UInt8) :
  (content found h id buffer).2.1.s i = h.s i
  := by
  rcases Nat.lt_or_ge buffer.length ((h.s id).length - (h.s id).read) with hlt | hle
  · rw [content_short hlt]
    exact setSlave_of_ne hne _
  · rw [content_full hle]
    exact setSlave_of_ne hne _

theorem header_of_ne (hne : i ≠ id) (buffer : List UInt8) :
  (header found h id buffer).2.1.s i = h.s i
  := by
  obtain hlt | ⟨hle, hlong | ⟨hlong, hend | hmore⟩⟩ := header_cases h id buffer
  · rw [header_short hlt]
    exact setSlave_of_ne hne _
  · rw [header_close hle hlong]
    dsimp only
    rw [closeHarbor_of_ne hne, setSlave_of_ne hne]
  · rw [header_end hle hlong hend]
    exact setSlave_of_ne hne _
  · rw [header_content hle hlong hmore, content_of_ne hne, setSlave_of_ne hne]

theorem checkId_of_ne (hne : i ≠ id) (buffer : List UInt8) :
  (checkId data found h id buffer).2.1.s i = h.s i
  := by
  cases buffer with
  | nil => rfl
  | cons remote_id buffer =>
      by_cases hid : remote_id.toNat = id
      · rcases eq_or_ne buffer [] with rfl | hmore
        · rw [checkId_end hid]
          exact setSlave_of_ne hne _
        · rw [checkId_header hid hmore]
          dsimp only
          rw [header_of_ne hne, setSlave_of_ne hne]
      · rw [checkId_wrong hid]
        exact closeHarbor_of_ne hne

theorem turn_of_down (hdown : (h.s id).status = .DOWN) (buffer : List UInt8) :
  turn data found h id buffer = ([], h, none)
  := by rw [turn, hdown]

variable (data found h) in
theorem turn_of_ne (hne : i ≠ id) (buffer : List UInt8) :
  (turn data found h id buffer).2.1.s i = h.s i
  := by
  unfold turn
  split
  · exact checkId_of_ne hne buffer
  · exact header_of_ne hne buffer
  · exact content_of_ne hne buffer
  · rfl

theorem pushLoop_of_down (hdown : (h.s id).status = .DOWN) (n : ℕ) (buffer : List UInt8) :
  pushLoop data found id n h buffer = ([], h)
  := by
  cases n with
  | zero => rfl
  | succ n => rw [pushLoop, turn_of_down hdown]

theorem pushLoop_of_ne (hne : i ≠ id) (n : ℕ) (buffer : List UInt8) :
  (pushLoop data found id n h buffer).2.s i = h.s i
  := by
  induction n generalizing h buffer with
  | zero => rfl
  | succ n ih =>
      have hturn := turn_of_ne data found h hne buffer
      rw [pushLoop]
      split
      · next out h' heq => rwa [heq] at hturn
      · next out h' rest heq =>
          rw [heq] at hturn
          exact (ih rest).trans hturn

theorem pushSocketData_of_down (hdown : (h.s id).status = .DOWN) (hid : h.slaveOf fd = some id)
    (buffer : List UInt8) :
  pushSocketData data found h fd buffer = ([], h)
  := by rw [pushSocketData_of_slave hid, pushLoop_of_down hdown]

theorem Slave.Down.pushLoop (hdown : (h.s i).Down) (id n : ℕ) (buffer : List UInt8) :
  (pushLoop data found id n h buffer).2.s i = h.s i
  := by
  rcases eq_or_ne i id with rfl | hne
  · rw [pushLoop_of_down hdown.status]
  · exact pushLoop_of_ne hne n buffer

/-- Only a slave that is not down is changed. -/
theorem Slave.Down.setSlave (hdown : (h.s i).Down) (hup : ¬(h.s id).Down) (s : Slave β) :
  (h.setSlave id s).s i = h.s i
  := by
  apply setSlave_of_ne
  rintro rfl
  exact hup hdown

theorem Slave.Down.remoteSendHandle (hdown : (h.s i).Down) (source destination : ℕ) (type : UInt8)
    (session : Session) (buffer : β) :
  (remoteSendHandle data h source destination type session buffer).2.s i = h.s i
  := by
  unfold Harbor.remoteSendHandle
  dsimp only
  split_ifs with hlocal hwait hstatus
  · rfl
  · rfl
  · exact hdown.setSlave (fun hd => hstatus hd.status) _
  · rfl

theorem Slave.Down.dispatchNameQueue (hdown : (h.s i).Down) (node : KeyValue β) :
  (dispatchNameQueue data h node).2.s i = h.s i
  := by
  unfold Harbor.dispatchNameQueue
  dsimp only
  split_ifs with hfd hstatus hlocal
  · rfl
  · exact hdown.setSlave (fun hd => hd.fd hfd) _
  · exact hdown.setSlave (fun hd => hd.fd hfd) _
  · rfl

theorem Slave.Down.mainloop (hdown : (h.s i).Down) (m : Message β) :
  (mainloop data found h m).2.s i = h.s i
  := by
  cases m with
  | data fd buffer =>
      unfold Harbor.mainloop Harbor.pushSocketData
      dsimp only
      split
      · rfl
      · exact hdown.pushLoop _ _ _
  | closed fd =>
      unfold Harbor.mainloop
      dsimp only
      split <;> rfl
  | N name source =>
      unfold Harbor.mainloop Harbor.commandN Harbor.updateName
      dsimp only
      split_ifs
      · rfl
      · split
        · rfl
        · exact hdown.dispatchNameQueue _
  | SA connects fd id =>
      unfold Harbor.mainloop Harbor.commandSA
      dsimp only
      split_ifs with hbad hexists hconnects
      · rfl
      · rfl
      · exact hdown.setSlave (fun hd => hexists hd.fd) _
      · rw [dispatchQueue_eq, setSlave_self, setSlave_setSlave]
        exact hdown.setSlave (fun hd => hexists hd.fd) _
  | toName source name type session buffer =>
      unfold Harbor.mainloop Harbor.remoteSendName
      dsimp only
      split_ifs
      · rfl
      · exact Slave.Down.remoteSendHandle (h := h.setName name _) hdown _ _ _ _ _
  | toHandle source destination type session buffer => exact hdown.remoteSendHandle _ _ _ _ _

end

/-- Another id than the expected one closes the connection. -/
theorem pushSocketData_wrong {remote_id : UInt8} (hid : h.slaveOf fd = some id)
    (hstatus : (h.s id).status = .HANDSHAKE) (hfd : (h.s id).fd ≠ 0) (hwrong : remote_id.toNat ≠ id)
    (tail : List UInt8) :
  pushSocketData data found h fd (remote_id :: tail) =
    ([.close fd], h.setSlave id { h.s id with status := .DOWN, queue := none })
  := by
  have hclose : (closeHarbor h id).1 = [.close fd] := by
    unfold closeHarbor
    dsimp only
    rw [if_pos hfd, (slaveOf_spec hid).2]
  rw [pushSocketData_of_slave hid, List.length_cons, pushLoop, turn_handshake hstatus,
    checkId_wrong hwrong]
  dsimp only
  rw [hclose]
  rfl

/-- What arrives after that is not looked at. -/
theorem pushAll_of_down (hid : h.slaveOf fd = some id) (hdown : (h.s id).status = .DOWN)
    (chunks : List (List UInt8)) :
  pushAll data found fd h chunks = ([], h)
  := by
  induction chunks with
  | nil => rfl
  | cons c cs ih =>
      rw [pushAll, pushSocketData_of_down hdown hid]
      dsimp only
      rw [ih]
      rfl

theorem pushAll_wrong {remote_id : UInt8} (hid : h.slaveOf fd = some id)
    (hstatus : (h.s id).status = .HANDSHAKE) (hfd : (h.s id).fd ≠ 0) (hwrong : remote_id.toNat ≠ id)
    (tail : List UInt8) (chunks : List (List UInt8)) :
  pushAll data found fd h ((remote_id :: tail) :: chunks) =
    ([.close fd], h.setSlave id { h.s id with status := .DOWN, queue := none })
  := by
  have hid' : (h.setSlave id { h.s id with status := .DOWN, queue := none }).slaveOf fd = some id := by
    rw [← hid]
    apply slaveOf_setSlave
    rfl
  have hdown : ((h.setSlave id { h.s id with status := .DOWN, queue := none }).s id).status = .DOWN := by
    rw [setSlave_self]
  rw [pushAll, pushSocketData_wrong hid hstatus hfd hwrong]
  dsimp only
  rw [pushAll_of_down hid' hdown]
  rfl

/-- Nor is what arrives later, whatever happens in between. -/
theorem always_of_down (hdown : (h.s id).Down) (ms : List (Message β)) :
  (machine data found).Always
    (fun h => ∀ buffer, h.slaveOf fd = some id → pushSocketData data found h fd buffer = ([], h)) h ms
  := by
  have hstep (h : Harbor β) (m : Message β) (h' : Harbor β) (hdown : (h.s id).Down)
      (hstep : (machine data found).step h m = some h') : (h'.s id).Down := by
    obtain rfl := Option.some.inj hstep
    rwa [hdown.mainloop]
  have hkept : (machine data found).Always (fun h => (h.s id).Down) h ms :=
    Machine.always_of_invariant hstep hdown ms
  apply hkept.mono
  intro h hdown buffer hid
  exact pushSocketData_of_down hdown.status hid buffer

/-! ### Streams -/

/-- Of a stream of the expected id and frames, however it is divided, what waits for the slave is sent, and the
frames that have arrived are passed on, each with what was written in its header; if the id is another, the
connection is closed and no part of the stream is passed on. -/
theorem stream_forwarded (hreach : (machine data found).Reachable h) (hid : h.slaveOf fd = some id)
    (hstatus : (h.s id).status = .HANDSHAKE) :
  (∀ c chunks bodies after, (∀ b ∈ c :: chunks, b ≠ []) → (∀ b ∈ bodies, Fits b) →
    (c :: chunks).flatten ++ after = UInt8.ofNat id :: bodies.flatMap frame →
    (pushAll data found fd h (c :: chunks)).1 = flush data (h.s id) ++
      (arrived frameLength ((c :: chunks).flatten.length - 1) bodies).flatMap (forwardLocal found h)) ∧
  (∀ msg header, header.Fits →
    forwardLocal found h (msg ++ headerToMessage header) = delivered found h msg header) ∧
  (∀ remote_id tail chunks ms, remote_id.toNat ≠ id →
    (pushAll data found fd h ((remote_id :: tail) :: chunks)).1 = [.close fd] ∧
    (machine data found).Always
      (fun h => ∀ buffer, h.slaveOf fd = some id → pushSocketData data found h fd buffer = ([], h))
      (pushAll data found fd h ((remote_id :: tail) :: chunks)).2 ms)
  := by
  have hsound := sound_of_reachable hreach id
  have hfd : (h.s id).fd ≠ 0 := by
    apply hsound.connected
    rw [hstatus]
    exact nofun
  refine ⟨?_, ?_, ?_⟩
  · intro c chunks bodies after hchunks hbodies hstream
    exact pushAll_shaken hid hstatus (hsound.read (.inr hstatus)) hbodies
      (hchunks c List.mem_cons_self) hstream
  · intro msg header hfits
    exact forwardLocal_headerToMessage hfits msg
  · intro remote_id tail chunks ms hwrong
    rw [pushAll_wrong hid hstatus hfd hwrong]
    refine ⟨rfl, always_of_down ?_ ms⟩
    rw [setSlave_self]
    exact ⟨rfl, hfd⟩

/-- The harbor of node 1 after it has been told to connect to node 2 by the socket 5. -/
def connecting : Harbor ℕ where
  id := 1
  slave := 0x01000002
  map := fun _ => none
  s := Function.update (fun _ => ⟨0, none, .WAIT, 0, 0, [], []⟩) 2 ⟨5, none, .HANDSHAKE, 0, 0, [], []⟩

theorem connecting_reachable :
  (machine (fun _ : ℕ => []) fun _ => false).Reachable connecting
  := by
  have hstarted : (machine (fun _ : ℕ => []) fun _ => false).Reachable
      { connecting with s := fun _ => ⟨0, none, .WAIT, 0, 0, [], []⟩ } :=
    .init ⟨fun _ => rfl, fun _ => ⟨rfl, rfl, rfl, rfl⟩⟩
  have hstep : (mainloop (fun _ : ℕ => []) (fun _ => false)
      { connecting with s := fun _ => ⟨0, none, .WAIT, 0, 0, [], []⟩ } (.SA true 5 2)).2 =
      connecting := rfl
  exact .step hstarted trivial (congrArg some hstep)

theorem stream_forwarded_once :
  (pushAll (fun _ : ℕ => []) (fun _ => false) 5 connecting
    [[2, 0], [0, 0, 12], headerToMessage ⟨1, 2, 3⟩]).1 =
    [.send ⟨1, 0x01000002, PTYPE_TAG_DONTCOPY, 3, []⟩,
      .send ⟨0x01000002, 1, PTYPE_ERROR, 3, []⟩]
  := by
  have hid : connecting.slaveOf 5 = some 2 := by decide +kernel
  obtain ⟨hforwarded, hheader, -⟩ := stream_forwarded connecting_reachable hid rfl
  have hfits : ∀ b ∈ [headerToMessage ⟨1, 2, 3⟩], Fits b := by decide +kernel
  have hstream := hforwarded [2, 0] [[0, 0, 12], headerToMessage ⟨1, 2, 3⟩] [headerToMessage ⟨1, 2, 3⟩] []
    (by decide +kernel) hfits (by decide +kernel)
  rw [hstream]
  have harrived : arrived frameLength
      (([[2, 0], [0, 0, 12], headerToMessage ⟨1, 2, 3⟩] : List (List UInt8)).flatten.length - 1)
      [headerToMessage ⟨1, 2, 3⟩] = [headerToMessage ⟨1, 2, 3⟩] := by decide +kernel
  rw [harrived, List.flatMap_singleton]
  have honce := hheader [] ⟨1, 2, 3⟩ ⟨by decide, by decide, by decide⟩
  rw [List.nil_append] at honce
  rw [honce]
  rfl

end Harbor

end Skynet
