import FWServer.Skynet.HarborStream

/-!
# The limits of the harbor

`send_remote` writes the length of a frame in four bytes, and refuses what does not fit them.  `push_socket_data`
closes the connection if the first of these is not 0, and passes any other frame on to `forward_local_messsage`, which
takes the header of the message from its last twelve bytes.
-/

namespace Skynet

namespace Harbor

open Segments

variable {β : Type} {h h' : Harbor β} {id fd : ℕ}

/-! ### What is passed on -/

/-- What `forward_local_messsage` is called with in the case `STATUS_CONTENT`. -/
def contentCalls (h : Harbor β) (id : ℕ) (buffer : List UInt8) : List (List UInt8) :=
  let s := h.s id
  let need := s.length - s.read
  if buffer.length < need then [] else [memcpy s.recv_buffer s.read (buffer.take need)]

/-- What it is called with in the case `STATUS_HEADER`. -/
def headerCalls (h : Harbor β) (id : ℕ) (buffer : List UInt8) : List (List UInt8) :=
  let s := h.s id
  let need := 4 - s.read
  if buffer.length < need ∨ (sizeBytes s buffer).headD 0 ≠ 0 ∨ buffer.drop need = [] then []
  else contentCalls (h.setSlave id (headed s buffer)) id (buffer.drop need)

/-- What it is called with in one turn of the loop. -/
def turnCalls (h : Harbor β) (id : ℕ) (buffer : List UInt8) : List (List UInt8) :=
  match (h.s id).status, buffer with
  | .HANDSHAKE, remote_id :: buffer =>
      if remote_id.toNat ≠ id ∨ buffer = [] then []
      else headerCalls (h.setSlave id (shaken (h.s id))) id buffer
  | .HEADER, buffer => headerCalls h id buffer
  | .CONTENT, buffer => contentCalls h id buffer
  | _, _ => []

variable (data : β → List UInt8) (found : ℕ → Bool)

/-- What it is called with in the loop. -/
def loopCalls (id : ℕ) : ℕ → Harbor β → List UInt8 → List (List UInt8)
  | 0, _, _ => []
  | n + 1, h, buffer =>
      turnCalls h id buffer ++
        match turn data found h id buffer with
        | (_, _, none) => []
        | (_, h, some rest) => loopCalls id n h rest

/-- What it is called with when chunks arrive from a socket, one after another. -/
def calls (fd : ℕ) (h : Harbor β) : List (List UInt8) → List (List UInt8)
  | [] => []
  | c :: cs =>
      (match h.slaveOf fd with
        | none => []
        | some id => loopCalls data found id (c.length + 2) h c) ++
      calls fd (pushSocketData data found h fd c).2 cs

/-! ### What is expected -/

/-- The slave is connected, and the header of a frame comes next. -/
structure Between (h : Harbor β) (fd id : ℕ) : Prop where
  slave : h.slaveOf fd = some id
  connected : fd ≠ 0
  status : (h.s id).status = .HEADER
  read : (h.s id).read = 0

/-- If the message is sent, then a peer passes on what is sent, however it is divided. -/
def SentIsForwarded (buffer : β) (cookie : Header) : Prop :=
  ∀ fd, .remote fd buffer cookie ∈ sendRemote data fd buffer cookie →
    ∀ h fd' id, (machine data found).Reachable h → Between h fd' id →
      ∀ chunks, (∀ c ∈ chunks, c ≠ []) → chunks.flatten = sendbuf data buffer cookie →
        (pushAll data found fd' h chunks).1 = forwardLocal found h (data buffer ++ headerToMessage cookie)

/-- If a peer announces a frame of `n` bytes, then the connection is closed, or what is passed on has a header. -/
def LengthIsGuarded (n : ℕ) : Prop :=
  ∀ h fd id, (machine data found).Reachable h → Between h fd id →
    ∀ chunks rest, (∀ c ∈ chunks, c ≠ []) → chunks.flatten = BigEndian.encode 4 n ++ rest →
      (pushAll data found fd h chunks).1 = [.close fd] ∨
        ∀ msg ∈ (calls data found fd h chunks).head?, HEADER_COOKIE_LENGTH ≤ msg.length

/-! ### A header arrives -/

variable {n : ℕ} {p buffer future rest : List UInt8}

/-- The header of a frame of `n` bytes has been read, and a part of its body. -/
structure Slave.PartBody (s : Slave β) (n : ℕ) : Prop where
  status : s.status = .CONTENT
  length : s.length = n
  buffer : s.recv_buffer.length = n
  read : s.read ≤ n

/-- The first byte of a length that is announced is 0 if it is less than 16 MB. -/
theorem head_encode_iff (hn : n < 2 ^ 32) :
  (BigEndian.encode 4 n).headD 0 = 0 ↔ n < 0x1000000
  := by
  constructor
  · intro hhead
    obtain ⟨a, t, ht⟩ : ∃ a t, BigEndian.encode 4 n = a :: t := by
      apply List.exists_cons_of_length_pos
      rw [BigEndian.length_encode]
      decide
    have hlength := congrArg List.length ht
    rw [BigEndian.length_encode] at hlength
    rw [ht] at hhead
    obtain rfl : a = 0 := hhead
    have hthree : t.reverse.length = 3 := by
      rw [List.length_reverse]
      exact (Nat.succ.inj hlength).symm
    have hlt := LittleEndian.decode_lt t.reverse
    rw [hthree, ← BigEndian.decode_reverse, List.reverse_reverse] at hlt
    have hdecode : BigEndian.decode (0 :: t) = n := by
      rw [← ht]
      exact BigEndian.decode_encode hn
    rw [← hdecode]
    exact hlt
  · intro hlt
    rw [BigEndian.encode_succ_of_lt hlt]
    rfl

theorem turn_header (buffer : List UInt8) (hstatus : (h.s id).status = .HEADER) :
  turn data found h id buffer = header found h id buffer ∧ turnCalls h id buffer = headerCalls h id buffer
  := by
  unfold turn turnCalls
  rw [hstatus]
  exact ⟨rfl, rfl⟩

theorem turn_content (buffer : List UInt8) (hstatus : (h.s id).status = .CONTENT) :
  turn data found h id buffer = content found h id buffer ∧ turnCalls h id buffer = contentCalls h id buffer
  := by
  unfold turn turnCalls
  rw [hstatus]
  exact ⟨rfl, rfl⟩

/-! ### Lengths below 16 MB -/

/-- A part of a frame of `n` bytes has been read. -/
def Slave.PartFrame (s : Slave β) (n : ℕ) (p : List UInt8) : Prop :=
  s.PartHeader p ∨ s.PartBody n

/-- The length of a frame below 16 MB is taken from its header. -/
theorem headed_partBody {s : Slave β} (hn : n < 0x1000000) (hpart : s.PartHeader p)
    (hstream : p ++ (buffer ++ future) = BigEndian.encode 4 n ++ rest) (hle : 4 - s.read ≤ buffer.length) :
  (sizeBytes s buffer).headD 0 = 0 ∧ (headed s buffer).PartBody n
  := by
  obtain ⟨hzero, hcount, -⟩ := hpart.counted hn hstream hle
  exact ⟨hzero, rfl, hcount, List.length_replicate.trans hcount, Nat.zero_le n⟩

/-- After a header, what is left is read as a body. -/
theorem header_goes_on (hle : 4 - (h.s id).read ≤ buffer.length) (hzero : (sizeBytes (h.s id) buffer).headD 0 = 0)
    (hmore : buffer.drop (4 - (h.s id).read) ≠ []) :
  header found h id buffer =
      content found (h.setSlave id (headed (h.s id) buffer)) id (buffer.drop (4 - (h.s id).read)) ∧
    headerCalls h id buffer =
      contentCalls (h.setSlave id (headed (h.s id) buffer)) id (buffer.drop (4 - (h.s id).read))
  := by
  have hgo : ¬ (buffer.length < 4 - (h.s id).read ∨ (sizeBytes (h.s id) buffer).headD 0 ≠ 0 ∨
      buffer.drop (4 - (h.s id).read) = []) := by
    rintro (hlt | hlong | hend)
    · omega
    · exact hlong hzero
    · exact hmore hend
  exact ⟨header_content hle hzero hmore, if_neg hgo⟩

/-- A turn passes a frame of `n` bytes on, or nothing, and then the frame is still being read. -/
def PassesOn (h : Harbor β) (id n : ℕ) (p : List UInt8) (calls : List (List UInt8))
    (turn : List (Output β) × Harbor β × Option (List UInt8)) : Prop :=
  (∃ msg, calls.head? = some msg ∧ msg.length = n) ∨
    (calls = [] ∧ ∃ s, turn = ([], h.setSlave id s, none) ∧ s.fd = (h.s id).fd ∧ s.PartFrame n p)

theorem content_passesOn (hbody : (h.s id).PartBody n) (p buffer : List UInt8) :
  PassesOn h id n p (contentCalls h id buffer) (content found h id buffer)
  := by
  have hlength := hbody.length
  have hread := hbody.read
  rcases Nat.lt_or_ge buffer.length ((h.s id).length - (h.s id).read) with hlt | hle
  · right
    refine ⟨if_pos hlt, _, content_short hlt, rfl, .inr ⟨hbody.status, hlength, ?_, ?_⟩⟩
    · exact (length_memcpy (by rw [hbody.buffer]; omega)).trans hbody.buffer
    · dsimp only
      omega
  · left
    refine ⟨_, congrArg List.head? (if_neg (Nat.not_lt.mpr hle)), ?_⟩
    rw [length_memcpy, hbody.buffer]
    rw [List.length_take, hbody.buffer]
    omega

theorem turn_passesOn (hn : n < 0x1000000) (hframe : (h.s id).PartFrame n p)
    (hstream : p ++ (buffer ++ future) = BigEndian.encode 4 n ++ rest) :
  PassesOn h id n (p ++ buffer) (turnCalls h id buffer) (turn data found h id buffer)
  := by
  rcases hframe with hpart | hbody
  · obtain ⟨hturn, hcalls⟩ := turn_header data found buffer hpart.status
    rw [hturn, hcalls]
    rcases Nat.lt_or_ge buffer.length (4 - (h.s id).read) with hlt | hle
    · obtain ⟨s, hheader, hfd, hpart'⟩ := header_part found hpart hlt
      right
      exact ⟨if_pos (.inl hlt), s, hheader, hfd, .inl hpart'⟩
    · obtain ⟨hzero, hheaded⟩ := headed_partBody hn hpart hstream hle
      rcases eq_or_ne (buffer.drop (4 - (h.s id).read)) [] with hend | hmore
      · right
        exact ⟨if_pos (.inr (.inr hend)), _, header_end hle hzero hend, rfl, .inr hheaded⟩
      · obtain ⟨hheader, hcalls'⟩ := header_goes_on found hle hzero hmore
        rw [hheader, hcalls']
        have hself : (h.setSlave id (headed (h.s id) buffer)).s id = headed (h.s id) buffer := setSlave_self _ _ _
        rw [← hself] at hheaded
        obtain hfirst | ⟨hnone, s, hcontent, hfd, hframe⟩ := content_passesOn found hheaded (p ++ buffer)
          (buffer.drop (4 - (h.s id).read))
        · exact .inl hfirst
        · right
          rw [setSlave_setSlave] at hcontent
          refine ⟨hnone, s, hcontent, ?_, hframe⟩
          rw [hfd, hself]
          rfl
  · obtain ⟨hturn, hcalls⟩ := turn_content data found buffer hbody.status
    rw [hturn, hcalls]
    exact content_passesOn found hbody _ _

/-- The first frame that is passed on has the length that was announced. -/
theorem calls_passesOn {chunks : List (List UInt8)} (hn : n < 0x1000000) (hid : h.slaveOf fd = some id)
    (hframe : (h.s id).PartFrame n p) (hstream : p ++ chunks.flatten = BigEndian.encode 4 n ++ rest) :
  ∀ msg ∈ (calls data found fd h chunks).head?, msg.length = n
  := by
  induction chunks generalizing h p with
  | nil => exact nofun
  | cons c cs ih =>
      rw [List.flatten_cons] at hstream
      intro msg hmsg
      rw [calls, hid] at hmsg
      dsimp only at hmsg
      obtain ⟨first, hfirst, hlength⟩ | ⟨hnone, s, hturn, hfd, hframe'⟩ :=
        turn_passesOn data found hn hframe hstream
      · rw [loopCalls] at hmsg
        obtain ⟨more, hmore⟩ := List.head?_eq_some_iff.mp hfirst
        rw [hmore] at hmsg
        obtain rfl := Option.some.inj hmsg
        exact hlength
      · have hloop : pushLoop data found id (c.length + 2) h c = ([], h.setSlave id s) := by
          rw [pushLoop, hturn]
        rw [loopCalls, hnone, hturn, pushSocketData_of_slave hid, hloop, List.nil_append, List.nil_append] at hmsg
        have hid' : (h.setSlave id s).slaveOf fd = some id := by rw [slaveOf_setSlave hfd, hid]
        rw [← setSlave_self h id s] at hframe'
        rw [← List.append_assoc] at hstream
        exact ih hid' hframe' hstream msg hmsg

/-! ### Lengths from 16 MB on -/

theorem turn_closes (hn : 0x1000000 ≤ n) (hn' : n < 2 ^ 32) (hpart : (h.s id).PartHeader p)
    (hconnected : (h.s id).fd ≠ 0) (hstream : p ++ (buffer ++ future) = BigEndian.encode 4 n ++ rest) :
  ∃ s, s.fd = (h.s id).fd ∧ (turn data found h id buffer = ([], h.setSlave id s, none) ∧ s.PartHeader (p ++ buffer) ∨
    turn data found h id buffer = ([.close (h.s id).fd], h.setSlave id s, none) ∧ s.status = .DOWN)
  := by
  rw [(turn_header data found buffer hpart.status).1]
  rcases Nat.lt_or_ge buffer.length (4 - (h.s id).read) with hlt | hle
  · obtain ⟨s, hheader, hfd, hpart'⟩ := header_part found hpart hlt
    exact ⟨s, hfd, .inl ⟨hheader, hpart'⟩⟩
  · obtain ⟨junk, hjunk⟩ := sizeBytes_eq hpart hstream hle
    have hlong : (sizeBytes (h.s id) buffer).headD 0 ≠ 0 := by
      rw [headD_sizeBytes hjunk]
      intro hzero
      exact Nat.not_lt.mpr hn ((head_encode_iff hn').mp hzero)
    refine ⟨{ h.s id with size := sizeBytes (h.s id) buffer, status := .DOWN, queue := none }, rfl, .inr ⟨?_, rfl⟩⟩
    rw [header_close hle hlong, closeHarbor, setSlave_self, setSlave_setSlave, if_pos hconnected]

/-- The connection is closed, and nothing is passed on. -/
theorem pushAll_closes {chunks : List (List UInt8)} (hn : 0x1000000 ≤ n) (hn' : n < 2 ^ 32)
    (hid : h.slaveOf fd = some id) (hconnected : fd ≠ 0) (hpart : (h.s id).PartHeader p)
    (hstream : p ++ chunks.flatten = BigEndian.encode 4 n ++ rest) :
  (pushAll data found fd h chunks).1 = [.close fd]
  := by
  have hfd : (h.s id).fd = fd := (slaveOf_spec hid).2
  induction chunks generalizing h p with
  | nil =>
      -- the four bytes of the header have not arrived yet
      have hlength := congrArg List.length hstream
      rw [List.flatten_nil, List.append_nil, List.length_append, BigEndian.length_encode, hpart.length] at hlength
      have hread := hpart.read
      omega
  | cons c cs ih =>
      rw [List.flatten_cons] at hstream
      rw [pushAll, pushSocketData_of_slave hid]
      obtain ⟨s, hsame, ⟨hturn, hpart'⟩ | ⟨hturn, hdown⟩⟩ :=
        turn_closes data found hn hn' hpart (hfd ▸ hconnected) hstream
      · have hself : ((h.setSlave id s).s id).fd = fd := by rw [setSlave_self, hsame, hfd]
        have hid' : (h.setSlave id s).slaveOf fd = some id := by rw [slaveOf_setSlave hsame, hid]
        rw [← setSlave_self h id s] at hpart'
        rw [← List.append_assoc] at hstream
        rw [pushLoop, hturn]
        exact ih hid' hpart' hstream hself
      · have hid' : (h.setSlave id s).slaveOf fd = some id := by rw [slaveOf_setSlave hsame, hid]
        have hdown' : ((h.setSlave id s).s id).status = .DOWN := by rw [setSlave_self, hdown]
        rw [pushLoop, hturn]
        dsimp only
        rw [pushAll_of_down hid' hdown', hfd]
        rfl

/-! ### A peer that is connected -/

/-- The harbor of node 1 to which node 2 has connected by the socket 5. -/
def accepting : Harbor β where
  id := 1
  slave := 0x01000002
  map := fun _ => none
  s := Function.update (fun _ => ⟨0, none, .WAIT, 0, 0, [], []⟩) 2 ⟨5, none, .HEADER, 0, 0, [], []⟩

theorem accepting_reachable :
  (machine data found).Reachable accepting
  := by
  have hstarted : (machine data found).Reachable
      { accepting with s := fun _ => ⟨0, none, .WAIT, 0, 0, [], []⟩ } :=
    .init ⟨fun _ => rfl, fun _ => ⟨rfl, rfl, rfl, rfl⟩⟩
  have hstep : (mainloop data found { accepting with s := fun _ => ⟨0, none, .WAIT, 0, 0, [], []⟩ } (.SA false 5 2)).2 =
      accepting := rfl
  exact .step hstarted trivial (congrArg some hstep)

theorem accepting_between :
  Between (accepting : Harbor β) 5 2
  := by
  refine ⟨?_, by decide, rfl, rfl⟩
  change (1 :: 2 :: List.range' 3 253).find? _ = some 2
  rw [List.find?_cons_of_neg, List.find?_cons_of_pos]
  · rfl
  · exact Bool.false_ne_true

theorem Between.part (hbetween : Between h fd id) :
  (h.s id).PartHeader []
  := by
  refine ⟨hbetween.status, ?_, ?_, hbetween.read.symm⟩
  · rw [hbetween.read]
    decide
  · rw [hbetween.read]
    rfl

/-! ### The limits -/

theorem forwardLocal_ne_close (h : Harbor β) (msg : List UInt8) (more : List (Output β)) (fd : ℕ) :
  forwardLocal found h msg ++ more ≠ [.close fd]
  := by
  unfold forwardLocal
  dsimp only
  split_ifs
  · exact nofun
  · exact nofun
  · exact nofun

theorem sendbuf_eq (buffer : β) (cookie : Header) :
  sendbuf data buffer cookie = frame (data buffer ++ headerToMessage cookie)
  := by
  rw [sendbuf, frame, List.length_append, length_headerToMessage, List.append_assoc]

theorem length_frame (b : List UInt8) :
  (frame b).length = frameLength b
  := by rw [frame, frameLength, List.length_append, BigEndian.length_encode]

/-- What is sent is passed on unless its length needs four bytes. -/
theorem sentIsForwarded_iff (buffer : β) (cookie : Header) :
  SentIsForwarded data found buffer cookie ↔
    ¬ (0x1000000 ≤ (data buffer).length + HEADER_COOKIE_LENGTH ∧
      (data buffer).length + HEADER_COOKIE_LENGTH ≤ UINT32_MAX)
  := by
  have hlength : (data buffer ++ headerToMessage cookie).length = (data buffer).length + HEADER_COOKIE_LENGTH := by
    rw [List.length_append, length_headerToMessage]
  constructor
  · rintro hforwarded ⟨hlong, hmax⟩
    have hsent : .remote 1 buffer cookie ∈ sendRemote data 1 buffer cookie := by
      rw [sendRemote, if_neg (Nat.not_lt.mpr hmax)]
      exact List.mem_singleton_self _
    have hchunk : sendbuf data buffer cookie ≠ [] := by
      rw [sendbuf_eq]
      intro hnil
      have hzero := congrArg List.length hnil
      rw [length_frame, frameLength, List.length_nil] at hzero
      omega
    have hbetween : Between (accepting : Harbor β) 5 2 := accepting_between
    have hout := hforwarded 1 hsent accepting 5 2 (accepting_reachable data found) hbetween [sendbuf data buffer cookie]
      (fun c hc => List.mem_singleton.mp hc ▸ hchunk) List.flatten_singleton
    have hstream : [] ++ [sendbuf data buffer cookie].flatten =
        BigEndian.encode 4 ((data buffer).length + HEADER_COOKIE_LENGTH) ++
          (data buffer ++ headerToMessage cookie) := by
      rw [List.nil_append, List.flatten_singleton, sendbuf_eq, frame, hlength]
    have hclose := pushAll_closes data found hlong (Nat.lt_of_le_of_lt hmax (by decide)) hbetween.slave
      hbetween.connected hbetween.part hstream
    rw [hclose] at hout
    exact forwardLocal_ne_close found accepting _ [] 5 ((List.append_nil _).trans hout.symm)
  · intro hfits fd hsent h fd' id _ hbetween chunks _ hchunks
    have hmax : (data buffer).length + HEADER_COOKIE_LENGTH ≤ UINT32_MAX := by
      apply Nat.le_of_not_lt
      intro hlarge
      rw [sendRemote, if_pos hlarge] at hsent
      cases hsent
    have hbody : ∀ b ∈ [data buffer ++ headerToMessage cookie], Fits b := by
      intro b hb
      rw [List.mem_singleton.mp hb, Fits, hlength]
      exact ⟨Nat.le_add_left _ _, Nat.lt_of_not_le fun hlong => hfits ⟨hlong, hmax⟩⟩
    have hpart := hbetween.part
    have hframe : frameLength (data buffer ++ headerToMessage cookie) = chunks.flatten.length := by
      rw [hchunks, sendbuf_eq, length_frame]
    have hstream : [] ++ (chunks.flatten ++ []) = [data buffer ++ headerToMessage cookie].flatMap frame := by
      rw [hchunks, sendbuf_eq, List.nil_append, List.append_nil, List.flatMap_singleton]
    rw [pushAll_reading data found hbetween.slave hbody (.header hpart.status hpart.read hpart.part hpart.length)
      hstream, List.length_nil, Nat.zero_add, ← hframe, arrived_cons (Nat.le_refl _), arrived_nil]
    exact List.flatMap_singleton _ _

/-- A frame that arrives as a whole, with what comes next, is passed on. -/
theorem turn_whole (hbetween : Between h fd id) (hn : n < 0x1000000) (hrest : n < rest.length) :
  ∃ msg, msg.length = n ∧ turnCalls h id (BigEndian.encode 4 n ++ rest) = [msg] ∧
    (turn data found h id (BigEndian.encode 4 n ++ rest)).1 = forwardLocal found h msg
  := by
  have hpart := hbetween.part
  have hread := hbetween.read
  have hsize : (BigEndian.encode 4 n).length = 4 := BigEndian.length_encode 4 n
  obtain ⟨hturn, hcalls⟩ := turn_header data found (BigEndian.encode 4 n ++ rest) hpart.status
  have hle : 4 - (h.s id).read ≤ (BigEndian.encode 4 n ++ rest).length := by
    rw [List.length_append]
    omega
  have hstream : [] ++ ((BigEndian.encode 4 n ++ rest) ++ []) = BigEndian.encode 4 n ++ rest := by
    rw [List.nil_append, List.append_nil]
  obtain ⟨hzero, hheaded⟩ := headed_partBody hn hpart hstream hle
  have hdrop : (BigEndian.encode 4 n ++ rest).drop (4 - (h.s id).read) = rest := by
    rw [hread]
    exact List.drop_left' hsize
  have hmore : (BigEndian.encode 4 n ++ rest).drop (4 - (h.s id).read) ≠ [] := by
    rw [hdrop]
    exact List.ne_nil_of_length_pos (Nat.zero_lt_of_lt hrest)
  obtain ⟨hheader, hcalls'⟩ := header_goes_on found hle hzero hmore
  rw [hdrop] at hheader hcalls'
  rw [hturn, hcalls, hheader, hcalls']
  rw [← setSlave_self h id (headed (h.s id) (BigEndian.encode 4 n ++ rest))] at hheaded
  generalize hh' : h.setSlave id (headed (h.s id) (BigEndian.encode 4 n ++ rest)) = h' at hheaded
  have hlocal (msg : List UInt8) : forwardLocal found h' msg = forwardLocal found h msg := by
    rw [← hh']
    rfl
  have hlength := hheaded.length
  have hbuffer := hheaded.buffer
  have hread' := hheaded.read
  have hneed : (h'.s id).length - (h'.s id).read ≤ rest.length := by omega
  refine ⟨_, ?_, if_neg (Nat.not_lt.mpr hneed), ?_⟩
  · rw [length_memcpy, hbuffer]
    rw [List.length_take]
    omega
  · rw [content_full hneed, hlocal]

/-- The length of a frame is guarded unless it is too short for a header. -/
theorem lengthIsGuarded_iff (hn : n < 2 ^ 32) :
  LengthIsGuarded data found n ↔ HEADER_COOKIE_LENGTH ≤ n
  := by
  constructor
  · intro hguarded
    by_contra hshort
    have hsmall : n < 0x1000000 := by
      have hlt : n < 12 := Nat.lt_of_not_le hshort
      omega
    have hrest : n < (List.replicate (n + 1) (0 : UInt8)).length := by
      rw [List.length_replicate]
      exact Nat.lt_succ_self n
    obtain ⟨msg, hlength, hcalls, hout⟩ := turn_whole data found accepting_between hsmall hrest
    have hchunk : BigEndian.encode 4 n ++ List.replicate (n + 1) 0 ≠ [] := List.append_ne_nil_of_right_ne_nil _ nofun
    have hbetween : Between (accepting : Harbor β) 5 2 := accepting_between
    obtain hclose | hfirst := hguarded accepting 5 2 (accepting_reachable data found) hbetween
      [BigEndian.encode 4 n ++ List.replicate (n + 1) 0] (List.replicate (n + 1) 0)
      (fun c hc => List.mem_singleton.mp hc ▸ hchunk) List.flatten_singleton
    · rw [pushAll, pushSocketData_of_slave hbetween.slave] at hclose
      have hloop : ∃ more, (pushLoop data found 2 ((BigEndian.encode 4 n ++ List.replicate (n + 1) 0).length + 2)
          accepting (BigEndian.encode 4 n ++ List.replicate (n + 1) 0)).1 =
            forwardLocal found accepting msg ++ more := by
        rw [pushLoop]
        split
        · next out h' heq =>
            rw [heq] at hout
            exact ⟨[], hout.trans (List.append_nil _).symm⟩
        · next out h' r heq =>
            rw [heq] at hout
            exact ⟨_, congrArg (· ++ _) hout⟩
      obtain ⟨more, hmore⟩ := hloop
      dsimp only at hclose
      rw [hmore, List.append_assoc] at hclose
      exact forwardLocal_ne_close found accepting msg _ 5 hclose
    · rw [calls, hbetween.slave] at hfirst
      dsimp only at hfirst
      rw [loopCalls, hcalls] at hfirst
      have hlong := hfirst msg rfl
      omega
  · intro hheader h fd id _ hbetween chunks rest _ hchunks
    rcases Nat.lt_or_ge n 0x1000000 with hlt | hge
    · right
      intro msg hmsg
      rw [calls_passesOn data found hlt hbetween.slave (.inl hbetween.part) hchunks msg hmsg]
      exact hheader
    · left
      exact pushAll_closes data found hge hn hbetween.slave hbetween.connected hbetween.part hchunks

/-- What is sent is passed on by the peer precisely when it is refused by both or of less than 16 MB with its header,
and every length is guarded but those that are less than the header of a message. -/
theorem limits_agree_iff (data : β → List UInt8) (found : ℕ → Bool) :
  (∀ buffer cookie, SentIsForwarded data found buffer cookie ↔
    ¬ (0x1000000 ≤ (data buffer).length + HEADER_COOKIE_LENGTH ∧
      (data buffer).length + HEADER_COOKIE_LENGTH ≤ UINT32_MAX)) ∧
  ∀ n, n < 2 ^ 32 → (LengthIsGuarded data found n ↔ HEADER_COOKIE_LENGTH ≤ n)
  := ⟨sentIsForwarded_iff data found, fun _ hn => lengthIsGuarded_iff data found hn⟩

/-- A message that fills 16 MB with its header is sent, and the peer closes the connection; a frame of eleven bytes is
passed on. -/
theorem limits_disagree :
  ¬ SentIsForwarded (fun b : List UInt8 => b) (fun _ => false) (List.replicate 0xfffff4 0) ⟨1, 2, 3⟩ ∧
    ¬ LengthIsGuarded (fun b : List UInt8 => b) (fun _ => false) 11
  := by
  have hlong (buffer : List UInt8) (hlength : buffer.length = 0xfffff4) :
      ¬ SentIsForwarded (fun b : List UInt8 => b) (fun _ => false) buffer ⟨1, 2, 3⟩ := by
    rw [sentIsForwarded_iff, not_not, hlength]
    decide
  constructor
  · exact hlong _ List.length_replicate
  · rw [lengthIsGuarded_iff _ _ (by decide)]
    decide

end Harbor

end Skynet
