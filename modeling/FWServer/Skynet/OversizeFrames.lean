import FWServer.Skynet.GateStream

/-!
# Frames that are too large

`dispatch_message` asks for a connection to be closed, and drops its buffer, when a body has arrived whose header
announces 16 MB or more.  A header is compared with the limit after its body has arrived, and as an `int`; and what
arrives until the connection is closed is read like what came before.
-/

namespace Skynet

namespace ServiceGate

/-! ### Messages of the socket -/

/-- What the gate is told: a command, a chunk, or that the connection is closed, `SKYNET_SOCKET_TYPE_CLOSE` or
`SKYNET_SOCKET_TYPE_ERROR`. -/
inductive SocketMessage where
  | event (e : Event)
  | closed

/-- The text of `_report(g, "%d close", message->id)`. -/
def closeText (id : ℤ) : List UInt8 :=
  (toString id ++ " close").toList.map fun c => UInt8.ofNat c.toNat

/-- `_report` -/
def report (g : Gate) (data : List UInt8) : List Action :=
  if g.watchdog = 0 then [] else [.send ⟨0, g.watchdog, PTYPE_TEXT, 0, data⟩]

/-- `dispatch_socket_message` for the messages of one socket: there is no state any more when the connection is
closed.  The other event is that of a command. -/
def dispatchSocketMessage (id : ℤ) : Option State → SocketMessage → List Action × Option State
  | some s, .event (.data chunk) =>
      let (actions, connection) := dispatchMessage s.gate s.connection chunk
      (actions, some { s with connection := connection })
  | some s, .event e => ([], some (s.command e))
  | some s, .closed => (report s.gate (closeText id), none)
  | none, .event (.data _) => ([.close id], none)
  | none, _ => ([], none)

/-- What the gate does from message to message, and the state after that. -/
def runSocket (id : ℤ) (s : Option State) : List SocketMessage → List Action × Option State
  | [] => ([], s)
  | m :: ms =>
      let (actions, s') := dispatchSocketMessage id s m
      let (later, s'') := runSocket id s' ms
      (actions ++ later, s'')

/-- The buffers with which the turns of the loop begin. -/
def turns (g : Gate) (c : Connection) (db : Databuffer) : List Databuffer :=
  if _h : (turn g c db).2.2 = true then db :: turns g c (turn g c db).2.1 else [db]
termination_by db.weight
decreasing_by exact weight_turn _h

/-! ### What is expected -/

/-- The size that the next header announces. -/
def Databuffer.announced (db : Databuffer) : ℕ :=
  BigEndian.decode (db.queue.contents.take 4)

/-- The header of a body of 16 MB or more is complete. -/
structure Databuffer.Oversize (db : Databuffer) : Prop where
  header : db.header = 0
  complete : 4 ≤ db.queue.size
  large : 0x1000000 ≤ db.announced

/-- Nothing is kept in the buffer. -/
def Databuffer.Bare (db : Databuffer) : Prop :=
  db.header = 0 ∧ db.queue.contents = []

/-- The state after the loop. -/
def State.looped (s : State) (db : Databuffer) : State :=
  s.withBuffer (dispatchLoop s.gate s.connection db).2

/-- The gate asks for the connection to be closed and drops the buffer, and whatever it is told later, no body is read
and nothing is kept. -/
structure Rejected (s : State) (db : Databuffer) (later : List SocketMessage) : Prop where
  closed : .close s.connection.id ∈ (dispatchLoop s.gate s.connection db).1
  dropped : (dispatchLoop s.gate s.connection db).2 = .clear
  unread : ∀ body, .body body ∉ (dispatchLoop s.gate s.connection db).1 ++
    (runSocket s.connection.id (some (s.looped db)) later).1
  unkept : ∀ before s', before <+: later →
    (runSocket s.connection.id (some (s.looped db)) before).2 = some s' → s'.connection.buffer.Bare

/-- A chunk after which nothing is kept and of which no body is read: headers of empty frames, or of any other ones if
there is no destination for their bodies, and after these perhaps the header of a body of 16 MB or more with all of
its body. -/
def Idle (destined : Prop) : List UInt8 → Prop
  | [] => True
  | a :: b :: c :: d :: rest =>
      let size := BigEndian.decode [a, b, c, d]
      (size < 0x1000000 ∧ (size = 0 ∨ (size ≤ rest.length ∧ ¬ destined)) ∧ Idle destined rest) ∨
        (0x1000000 ≤ size ∧ size < 2 ^ 31 ∧ size ≤ rest.length)
  | _ => False

/-- All chunks are such until the connection is closed. -/
def Quiet (s : State) : List SocketMessage → Prop
  | [] => True
  | .event (.data chunk) :: ms => Idle s.Destined chunk ∧ Quiet s ms
  | .event e :: ms => Quiet (s.command e) ms
  | .closed :: _ => True

/-- The header announces less than 2 GB, all of the body has arrived with it, and what arrives until the connection is
closed leaves no trace. -/
structure Rejectable (s : State) (db : Databuffer) (later : List SocketMessage) : Prop where
  nonneg : db.announced < 2 ^ 31
  arrived : 4 + db.announced ≤ db.queue.size
  quiet : Quiet s later

/-- `P` holds of the state, the buffer and the messages that come later, whenever the header of a body of 16 MB or more
is complete. -/
def AtOversize (s : State) (ms : List SocketMessage) (P : State → Databuffer → List SocketMessage → Prop) : Prop :=
  ∀ before chunk later s', ms = before ++ .event (.data chunk) :: later →
    (runSocket s.connection.id (some s) before).2 = some s' →
    ∀ db ∈ turns s'.gate s'.connection
      { s'.connection.buffer with queue := s'.connection.buffer.queue.push chunk },
    db.Oversize → P s' db later

/-! ### A turn with a header -/

section

variable {s : State} {db : Databuffer} {a b c d : UInt8} {rest : List UInt8}

theorem decode_four_lt (a b c d : UInt8) :
  BigEndian.decode [a, b, c, d] < 2 ^ 32
  := by
  calc
    BigEndian.decode [a, b, c, d] = LittleEndian.decode [d, c, b, a] := BigEndian.decode_reverse [d, c, b, a]
    _ < 256 ^ 4 := LittleEndian.decode_lt [d, c, b, a]
    _ = 2 ^ 32 := by decide

theorem parse_four (plen : List UInt8) :
  Header.L.parse plen = LittleEndian.toInt (BigEndian.decode plen)
  := rfl

theorem readheader_four (hsize : s.gate.header_size = .L) (hzero : db.header = 0)
    (hcontents : db.queue.contents = a :: b :: c :: d :: rest) :
  ∃ db' : Databuffer, db'.header = LittleEndian.toInt (BigEndian.decode [a, b, c, d]) ∧ db'.queue.contents = rest ∧
    db.readheader s.gate.header_size = (db'.returned, db', [.header [a, b, c, d]])
  := by
  have hle : Header.L.size ≤ db.queue.size := by
    rw [← ChunkQueue.length_contents, hcontents]
    exact Nat.le_add_left _ _
  have hread : (db.queue.read Header.L.size hle).1 = [a, b, c, d] := by
    rw [ChunkQueue.read_fst, hcontents]
    rfl
  have hrest : (db.queue.read Header.L.size hle).2.contents = rest := by
    rw [ChunkQueue.contents_read, hcontents]
    rfl
  refine ⟨⟨Header.L.parse (db.queue.read _ hle).1, (db.queue.read _ hle).2⟩, ?_, hrest, ?_⟩
  · rw [hread, parse_four]
  · rw [hsize, Databuffer.readheader_read hzero hle, hread]

/-- The loop waits for a body that has not arrived, and behind a header that is negative. -/
theorem turn_wait (hsize : s.gate.header_size = .L) (hzero : db.header = 0)
    (hcontents : db.queue.contents = a :: b :: c :: d :: rest)
    (hwait : ¬ (BigEndian.decode [a, b, c, d] < 2 ^ 31 ∧ BigEndian.decode [a, b, c, d] ≤ rest.length)) :
  ∃ db' : Databuffer, db'.header ≠ 0 ∧ turn s.gate s.connection db = ([.header [a, b, c, d]], db', false)
  := by
  obtain ⟨db', hheader, hrest, hread⟩ := readheader_four hsize hzero hcontents
  have hlength : db'.queue.size = rest.length := by
    rw [← hrest, ChunkQueue.length_contents]
  by_cases hlt : BigEndian.decode [a, b, c, d] < 2 ^ 31
  · rw [LittleEndian.toInt_of_lt hlt] at hheader
    have hret : db'.returned = -1 := by
      rw [Databuffer.returned, if_pos (by omega)]
    rw [hret] at hread
    exact ⟨db', by omega, turn_stop hread (by decide)⟩
  · have hneg := LittleEndian.toInt_of_ge (Nat.le_of_not_lt hlt) (decode_four_lt a b c d)
    rw [← hheader] at hneg
    have hret : db'.returned = db'.header := by
      rw [Databuffer.returned, if_neg (by omega)]
    exact ⟨db', Int.ne_of_lt hneg, turn_stop hread (hret.symm ▸ hneg)⟩

/-- What is returned for a body that has arrived. -/
theorem readheader_arrived (hsize : s.gate.header_size = .L) (hzero : db.header = 0)
    (hcontents : db.queue.contents = a :: b :: c :: d :: rest) (hlt : BigEndian.decode [a, b, c, d] < 2 ^ 31)
    (hle : BigEndian.decode [a, b, c, d] ≤ rest.length) :
  ∃ db' : Databuffer, db'.header = BigEndian.decode [a, b, c, d] ∧ db'.queue.contents = rest ∧
    db.readheader s.gate.header_size = ((BigEndian.decode [a, b, c, d] : ℤ), db', [.header [a, b, c, d]])
  := by
  obtain ⟨db', hheader, hrest, hread⟩ := readheader_four hsize hzero hcontents
  rw [LittleEndian.toInt_of_lt hlt] at hheader
  have hlength : db'.queue.size = rest.length := by
    rw [← hrest, ChunkQueue.length_contents]
  have hret : db'.returned = db'.header := by
    rw [Databuffer.returned, if_neg (by omega)]
  rw [hret, hheader] at hread
  exact ⟨db', hheader, hrest, hread⟩

/-- A body of 16 MB or more that has arrived has the connection closed. -/
theorem turn_close (hsize : s.gate.header_size = .L) (hzero : db.header = 0)
    (hcontents : db.queue.contents = a :: b :: c :: d :: rest) (hlt : BigEndian.decode [a, b, c, d] < 2 ^ 31)
    (hle : BigEndian.decode [a, b, c, d] ≤ rest.length) (hlarge : 0x1000000 ≤ BigEndian.decode [a, b, c, d]) :
  turn s.gate s.connection db = ([.header [a, b, c, d], .close s.connection.id], .clear, false)
  := by
  obtain ⟨db', -, -, hread⟩ := readheader_arrived hsize hzero hcontents hlt hle
  rw [turn_eq hread, if_neg (by omega), dif_pos (by omega), if_pos (by omega)]
  rfl

/-- A body that has arrived and finds a destination is read. -/
theorem turn_read (hsize : s.gate.header_size = .L) (hzero : db.header = 0)
    (hcontents : db.queue.contents = a :: b :: c :: d :: rest) (hpos : BigEndian.decode [a, b, c, d] ≠ 0)
    (hsmall : BigEndian.decode [a, b, c, d] < 0x1000000) (hle : BigEndian.decode [a, b, c, d] ≤ rest.length)
    (hs : s.Destined) :
  ∃ body, .body body ∈ (turn s.gate s.connection db).1
  := by
  obtain ⟨db', -, -, hread⟩ := readheader_arrived hsize hzero hcontents (by omega) hle
  rw [turn_body hread (by omega) (by omega), forward_destined hs]
  exact ⟨_, List.mem_append_right _ List.mem_cons_self⟩

/-- An empty body, or one without a destination, is passed over, and the next header comes right after its own. -/
theorem turn_pass (hsize : s.gate.header_size = .L) (hzero : db.header = 0)
    (hcontents : db.queue.contents = a :: b :: c :: d :: rest)
    (hsmall : BigEndian.decode [a, b, c, d] < 0x1000000)
    (hpass : BigEndian.decode [a, b, c, d] = 0 ∨ (BigEndian.decode [a, b, c, d] ≤ rest.length ∧ ¬ s.Destined)) :
  ∃ db' : Databuffer, db'.header = 0 ∧ db'.queue.contents = rest ∧
    turn s.gate s.connection db = ([.header [a, b, c, d]], db', true)
  := by
  obtain ⟨db', hheader, hrest, hread⟩ := readheader_arrived hsize hzero hcontents (by omega) (by omega)
  by_cases hempty : BigEndian.decode [a, b, c, d] = 0
  · rw [hempty] at hread hheader
    exact ⟨db', hheader, hrest, turn_empty hread⟩
  · have hs := (hpass.resolve_left hempty).2
    refine ⟨{ db' with header := 0 }, rfl, hrest, ?_⟩
    rw [turn_body hread (by omega) (by omega), forward_undestined hs]
    rfl

theorem dispatchLoop_go {actions : List Action} {db' : Databuffer}
    (h : turn s.gate s.connection db = (actions, db', true)) :
  dispatchLoop s.gate s.connection db =
    (actions ++ (dispatchLoop s.gate s.connection db').1, (dispatchLoop s.gate s.connection db').2)
  := by rw [dispatchLoop_of_turn (by rw [h]), h]

theorem dispatchLoop_stop {actions : List Action} {db' : Databuffer}
    (h : turn s.gate s.connection db = (actions, db', false)) :
  dispatchLoop s.gate s.connection db = (actions, db')
  := by rw [dispatchLoop_of_stop (h ▸ Bool.false_ne_true), h]

theorem idle_short {destined : Prop} {chunk : List UInt8} (h : chunk.length < 4) :
  Idle destined chunk ↔ chunk = []
  := by
  match chunk with
  | [] => exact iff_of_true trivial rfl
  | [_] | [_, _] | [_, _, _] => exact iff_of_false not_false (List.cons_ne_nil _ _)
  | _ :: _ :: _ :: _ :: rest =>
      simp only [List.length_cons] at h
      omega

/-- No body has been read, and nothing is kept. -/
def Traceless (r : List Action × Databuffer) : Prop :=
  (∀ body, .body body ∉ r.1) ∧ r.2.Bare

theorem traceless_header (plen : List UInt8) (actions : List Action) (db : Databuffer) :
  Traceless (.header plen :: actions, db) ↔ Traceless (actions, db)
  := by
  apply and_congr_left'
  apply forall_congr'
  intro body
  rw [List.mem_cons, or_iff_right]
  exact nofun

theorem traceless_short (hsize : s.gate.header_size = .L) (hzero : db.header = 0)
    (hshort : db.queue.contents.length < 4) :
  Traceless (dispatchLoop s.gate s.connection db) ↔ Idle s.Destined db.queue.contents
  := by
  have hread : db.queue.size < s.gate.header_size.size := by
    rw [hsize, ← ChunkQueue.length_contents]
    exact hshort
  rw [dispatchLoop_stop (turn_stop (Databuffer.readheader_short hzero hread) (by decide)), idle_short hshort]
  exact ⟨fun htrace => htrace.2.2, fun hnil => ⟨fun _ => List.not_mem_nil, hzero, hnil⟩⟩

/-- A chunk leaves no trace precisely when it is idle. -/
theorem traceless_iff (hsize : s.gate.header_size = .L) (hzero : db.header = 0) :
  Traceless (dispatchLoop s.gate s.connection db) ↔ Idle s.Destined db.queue.contents
  := by
  induction hcontents : db.queue.contents using Idle.induct generalizing db with
  | case1 =>
      rw [← hcontents]
      apply traceless_short hsize hzero
      rw [hcontents]
      decide
  | case3 chunk hne hfour =>
      rw [← hcontents]
      apply traceless_short hsize hzero
      rw [hcontents]
      match chunk with
      | [_] | [_, _] | [_, _, _] =>
          simp only [List.length_cons, List.length_nil]
          decide
      | a :: b :: c :: d :: rest => exact absurd rfl (hfour a b c d rest)
  | case2 a b c d rest ih =>
      rw [Idle]
      by_cases hwait : BigEndian.decode [a, b, c, d] < 2 ^ 31 ∧ BigEndian.decode [a, b, c, d] ≤ rest.length
      · obtain ⟨hlt, hle⟩ := hwait
        by_cases hlarge : 0x1000000 ≤ BigEndian.decode [a, b, c, d]
        · rw [dispatchLoop_stop (turn_close hsize hzero hcontents hlt hle hlarge), traceless_header]
          refine iff_of_true ⟨?_, rfl, rfl⟩ (.inr ⟨hlarge, hlt, hle⟩)
          intro body hbody
          cases List.mem_singleton.mp hbody
        · have hsmall := Nat.lt_of_not_le hlarge
          rw [and_iff_right hsmall, or_iff_left fun h => hlarge h.1]
          by_cases hpass : BigEndian.decode [a, b, c, d] = 0 ∨
            (BigEndian.decode [a, b, c, d] ≤ rest.length ∧ ¬ s.Destined)
          · obtain ⟨db', hzero', hcontents', hturn⟩ := turn_pass hsize hzero hcontents hsmall hpass
            rw [dispatchLoop_go hturn, List.singleton_append, traceless_header, and_iff_right hpass]
            exact ih hzero' hcontents'
          · obtain ⟨hpos, hs⟩ := not_or.mp hpass
            have hs : s.Destined := not_not.mp fun h => hs ⟨hle, h⟩
            obtain ⟨body, hbody⟩ := turn_read hsize hzero hcontents hpos hsmall hle hs
            apply iff_of_false
            · intro htrace
              apply htrace.1 body
              by_cases hgo : (turn s.gate s.connection db).2.2 = true
              · rw [dispatchLoop_of_turn hgo]
                exact List.mem_append_left _ hbody
              · rw [dispatchLoop_of_stop hgo]
                exact hbody
            · exact fun h => hpass h.1
      · obtain ⟨db', hheader, hturn⟩ := turn_wait hsize hzero hcontents hwait
        rw [dispatchLoop_stop hturn]
        apply iff_of_false
        · exact fun htrace => hheader htrace.2.1
        · rintro (⟨hsmall, hpass, -⟩ | ⟨-, hlt, hle⟩)
          · apply hwait
            omega
          · exact hwait ⟨hlt, hle⟩

/-! ### Until the connection is closed -/

theorem runSocket_none (id : ℤ) (ms : List SocketMessage) :
  (∀ body, .body body ∉ (runSocket id none ms).1) ∧ (runSocket id none ms).2 = none
  := by
  induction ms with
  | nil => exact ⟨fun _ => List.not_mem_nil, rfl⟩
  | cons m ms ih =>
      match m with
      | .event (.data _) =>
          refine ⟨?_, ih.2⟩
          intro body hbody
          rcases List.mem_cons.mp hbody with hbody | hbody
          · cases hbody
          · exact ih.1 body hbody
      | .event (.forward _ _) | .event (.broker _) | .closed => exact ih

/-- No body is read, and nothing is ever kept. -/
structure Clean (id : ℤ) (s : State) (ms : List SocketMessage) : Prop where
  unread : ∀ body, .body body ∉ (runSocket id (some s) ms).1
  unkept : ∀ before s', before <+: ms → (runSocket id (some s) before).2 = some s' → s'.connection.buffer.Bare

theorem Clean.bare {id : ℤ} {ms : List SocketMessage} (h : Clean id s ms) :
  s.connection.buffer.Bare
  := h.unkept [] s (List.nil_prefix) rfl

theorem clean_cons {id : ℤ} {m : SocketMessage} {ms : List SocketMessage} {actions : List Action} {s' : State}
    (hbare : s.connection.buffer.Bare) (h : dispatchSocketMessage id (some s) m = (actions, some s')) :
  Clean id s (m :: ms) ↔ (∀ body, .body body ∉ actions) ∧ Clean id s' ms
  := by
  have hrun (ms' : List SocketMessage) : runSocket id (some s) (m :: ms') =
      (actions ++ (runSocket id (some s') ms').1, (runSocket id (some s') ms').2) := by
    rw [runSocket, h]
  constructor
  · rintro ⟨hunread, hunkept⟩
    rw [hrun] at hunread
    refine ⟨fun body hbody => hunread body (List.mem_append_left _ hbody),
      fun body hbody => hunread body (List.mem_append_right _ hbody), ?_⟩
    intro before s'' hbefore hs''
    apply hunkept (m :: before) s'' ((List.cons_prefix_cons).mpr ⟨rfl, hbefore⟩)
    rw [hrun]
    exact hs''
  · rintro ⟨hactions, hunread, hunkept⟩
    constructor
    · intro body hbody
      rw [hrun] at hbody
      rcases List.mem_append.mp hbody with hbody | hbody
      · exact hactions body hbody
      · exact hunread body hbody
    · intro before s'' hbefore hs''
      cases before with
      | nil =>
          obtain rfl := Option.some.inj hs''
          exact hbare
      | cons m' before =>
          obtain ⟨rfl, hpre⟩ := List.cons_prefix_cons.mp hbefore
          rw [hrun] at hs''
          exact hunkept before s'' hpre hs''

theorem quiet_withBuffer (s : State) (db : Databuffer) (ms : List SocketMessage) :
  Quiet (s.withBuffer db) ms ↔ Quiet s ms
  := by
  induction ms generalizing s with
  | nil => exact Iff.rfl
  | cons m ms ih =>
      match m with
      | .event (.data chunk) => exact and_congr_right' (ih s)
      | .event (.forward agent client) => exact ih (s.command (.forward agent client))
      | .event (.broker handle) => exact ih (s.command (.broker handle))
      | .closed => exact Iff.rfl

theorem not_mem_report {g : Gate} {data body : List UInt8} :
  .body body ∉ report g data
  := by
  unfold report
  split_ifs
  · exact List.not_mem_nil
  · intro hbody
    cases List.mem_singleton.mp hbody

/-- What arrives leaves no trace precisely when it is quiet. -/
theorem clean_iff {id : ℤ} {ms : List SocketMessage} (hsize : s.gate.header_size = .L)
    (hbare : s.connection.buffer.Bare) :
  Clean id s ms ↔ Quiet s ms
  := by
  induction ms generalizing s with
  | nil =>
      refine iff_of_true ⟨fun _ => List.not_mem_nil, ?_⟩ trivial
      intro before s' hbefore hs'
      rw [List.prefix_nil.mp hbefore] at hs'
      obtain rfl := Option.some.inj hs'
      exact hbare
  | cons m ms ih =>
      match m with
      | .event (.data chunk) =>
          let db : Databuffer := { s.connection.buffer with queue := s.connection.buffer.queue.push chunk }
          have hcontents : db.queue.contents = chunk := by
            rw [ChunkQueue.contents_push, hbare.2, List.nil_append]
          have htrace : Traceless (dispatchLoop s.gate s.connection db) ↔ Idle s.Destined chunk :=
            hcontents ▸ traceless_iff hsize hbare.1
          have hstep : dispatchSocketMessage id (some s) (.event (.data chunk)) =
              ((dispatchLoop s.gate s.connection db).1, some (s.looped db)) := rfl
          rw [clean_cons hbare hstep, Quiet, ← htrace]
          constructor
          · rintro ⟨hunread, hclean⟩
            refine ⟨⟨hunread, hclean.bare⟩, ?_⟩
            rw [← quiet_withBuffer]
            exact (ih (s := s.looped db) hsize hclean.bare).mp hclean
          · rintro ⟨⟨hunread, hbare'⟩, hquiet⟩
            refine ⟨hunread, (ih (s := s.looped db) hsize hbare').mpr ?_⟩
            exact (quiet_withBuffer _ _ _).mpr hquiet
      | .event (.forward agent client) =>
          rw [clean_cons hbare rfl, and_iff_right fun _ => List.not_mem_nil]
          exact ih (s := s.command (.forward agent client)) hsize hbare
      | .event (.broker handle) =>
          rw [clean_cons hbare rfl, and_iff_right fun _ => List.not_mem_nil]
          exact ih (s := s.command (.broker handle)) hsize hbare
      | .closed =>
          refine iff_of_true ⟨?_, ?_⟩ trivial
          · intro body hbody
            rcases List.mem_append.mp hbody with hbody | hbody
            · exact not_mem_report hbody
            · exact (runSocket_none id ms).1 body hbody
          · intro before s' hbefore hs'
            cases before with
            | nil =>
                obtain rfl := Option.some.inj hs'
                exact hbare
            | cons m' before =>
                obtain ⟨rfl, -⟩ := List.cons_prefix_cons.mp hbefore
                have hnone := (runSocket_none id before).2
                cases hs'.symm.trans hnone

/-! ### The rejection -/

/-- A body of 16 MB or more is rejected precisely when it is rejectable. -/
theorem rejected_iff {later : List SocketMessage} (hsize : s.gate.header_size = .L) (h : db.Oversize) :
  Rejected s db later ↔ Rejectable s db later
  := by
  obtain ⟨a, b, c, d, rest, hcontents⟩ : ∃ a b c d rest, db.queue.contents = a :: b :: c :: d :: rest := by
    have hcomplete := h.complete
    rw [← ChunkQueue.length_contents] at hcomplete
    match db.queue.contents, hcomplete with
    | a :: b :: c :: d :: rest, _ => exact ⟨a, b, c, d, rest, rfl⟩
  have hannounced : db.announced = BigEndian.decode [a, b, c, d] := by
    rw [Databuffer.announced, hcontents]
    rfl
  have harrived : db.queue.size = 4 + rest.length := by
    rw [← ChunkQueue.length_contents, hcontents]
    simp only [List.length_cons]
    omega
  have hlarge := h.large
  rw [hannounced] at hlarge
  by_cases hwait : BigEndian.decode [a, b, c, d] < 2 ^ 31 ∧ BigEndian.decode [a, b, c, d] ≤ rest.length
  · obtain ⟨hlt, hle⟩ := hwait
    have hloop := dispatchLoop_stop (turn_close hsize h.header hcontents hlt hle hlarge)
    have hbare : (s.looped db).connection.buffer.Bare := by
      rw [State.looped, hloop]
      exact ⟨rfl, rfl⟩
    have hclean : Clean s.connection.id (s.looped db) later ↔ Quiet (s.looped db) later := clean_iff hsize hbare
    rw [State.looped, quiet_withBuffer] at hclean
    constructor
    · intro hrejected
      refine ⟨hannounced ▸ hlt, ?_, hclean.mp ⟨?_, hrejected.unkept⟩⟩
      · omega
      · exact fun body hbody => hrejected.unread body (List.mem_append_right _ hbody)
    · rintro ⟨-, -, hquiet⟩
      obtain ⟨hunread, hunkept⟩ := hclean.mpr hquiet
      refine ⟨?_, ?_, ?_, hunkept⟩
      · rw [hloop]
        exact List.mem_cons_of_mem _ List.mem_cons_self
      · rw [hloop]
      · intro body hbody
        rcases List.mem_append.mp hbody with hbody | hbody
        · rw [hloop] at hbody
          rcases List.mem_cons.mp hbody with hbody | hbody
          · cases hbody
          · cases List.mem_singleton.mp hbody
        · exact hunread body hbody
  · obtain ⟨db', -, hturn⟩ := turn_wait hsize h.header hcontents hwait
    apply iff_of_false
    · intro hrejected
      have hclosed := hrejected.closed
      rw [dispatchLoop_stop hturn] at hclosed
      cases List.mem_singleton.mp hclosed
    · rintro ⟨hlt, hle, -⟩
      apply hwait
      omega

/-- The style of the headers is never changed. -/
theorem header_size_runSocket {id : ℤ} {ms : List SocketMessage} {s' : State}
    (h : (runSocket id (some s) ms).2 = some s') :
  s'.gate.header_size = s.gate.header_size
  := by
  induction ms generalizing s with
  | nil => rw [← Option.some.inj h]
  | cons m ms ih =>
      match m with
      | .event (.data chunk) => exact ih (s := s.looped _) h
      | .event (.forward agent client) => exact ih (s := s.command (.forward agent client)) h
      | .event (.broker handle) => exact ih (s := s.command (.broker handle)) h
      | .closed => cases h.symm.trans (runSocket_none id ms).2

/-- In every run with headers of four bytes, bodies of 16 MB or more are rejected as soon as their headers are complete
precisely when these announce less than 2 GB, the bodies have arrived with them, and what arrives until the connection
is closed leaves no trace. -/
theorem oversize_rejected_iff {ms : List SocketMessage} (hsize : s.gate.header_size = .L) :
  AtOversize s ms Rejected ↔ AtOversize s ms Rejectable
  := by
  have hat {later : List SocketMessage} {s' : State} {db : Databuffer} {before : List SocketMessage}
      (hs' : (runSocket s.connection.id (some s) before).2 = some s') (hover : db.Oversize) :
      Rejected s' db later ↔ Rejectable s' db later :=
    rejected_iff ((header_size_runSocket hs').trans hsize) hover
  constructor
  · intro h before chunk later s' hms hs' db hdb hover
    exact (hat hs' hover).mp (h before chunk later s' hms hs' db hdb hover)
  · intro h before chunk later s' hms hs' db hdb hover
    exact (hat hs' hover).mpr (h before chunk later s' hms hs' db hdb hover)

end

/-- The header of a body of 16 MB, with nothing of the body. -/
theorem oversize_rejected_iff_waiting :
  AtOversize ⟨⟨0, 9, 3, .L⟩, ⟨1, 0, 0, .clear⟩⟩ [.event (.data [1, 0, 0, 0]), .closed] Rejected ↔
    AtOversize ⟨⟨0, 9, 3, .L⟩, ⟨1, 0, 0, .clear⟩⟩ [.event (.data [1, 0, 0, 0]), .closed] Rejectable
  := oversize_rejected_iff rfl

theorem turns_head (g : Gate) (c : Connection) (db : Databuffer) :
  db ∈ turns g c db
  := by
  rw [turns]
  split
  · exact List.mem_cons_self
  · exact List.mem_singleton_self db

/-- The gate waits for the body of 16 MB that a header announces, and it never rejects one of 2 GB. -/
theorem oversize_kept :
  ¬ AtOversize ⟨⟨0, 9, 3, .L⟩, ⟨1, 0, 0, .clear⟩⟩ [.event (.data [1, 0, 0, 0])] Rejected ∧
    ¬ AtOversize ⟨⟨0, 9, 3, .L⟩, ⟨1, 0, 0, .clear⟩⟩ [.event (.data [0x80, 0, 0, 0, 7])] Rejected
  := by
  constructor
  · intro h
    have hrejected := h [] [1, 0, 0, 0] [] _ rfl rfl _ (turns_head _ _ _) ⟨rfl, by decide, by decide⟩
    have hclosed := hrejected.closed
    revert hclosed
    decide +kernel
  · intro h
    have hrejected := h [] [0x80, 0, 0, 0, 7] [] _ rfl rfl _ (turns_head _ _ _) ⟨rfl, by decide, by decide⟩
    have hclosed := hrejected.closed
    revert hclosed
    decide +kernel

end ServiceGate

end Skynet
