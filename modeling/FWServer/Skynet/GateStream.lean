import FWServer.Kernel.Segments
import FWServer.Skynet.ServiceGate

/-!
# The gate and the stream

A stream of frames is made of headers and bodies that are not empty.  As long as every body that arrives finds
a destination, the gate reads each header and each body once, as soon as it has arrived, and sends the body on
(`stream_kept_iff`).  A body that finds none is not read, and its bytes are taken for headers.
-/

namespace Skynet

namespace ServiceGate

open Segments

/-! ### Streams -/

/-- A part of a stream of frames: the header of a body of `n` bytes, or a body. -/
inductive Segment where
  | header (n : ℕ)
  | body (s : List UInt8)
  deriving DecidableEq

def Segment.bytes (header_size : Header) : Segment → List UInt8
  | .header n => BigEndian.encode header_size.size n
  | .body s => s

def Segment.length (header_size : Header) (x : Segment) : ℕ :=
  (x.bytes header_size).length

/-- The parts of a frame. -/
def Segment.ofBody (s : List UInt8) : List Segment :=
  if s = [] then [.header 0] else [.header s.length, .body s]

/-- The parts of the frames of some bodies. -/
def segments (bodies : List (List UInt8)) : List Segment :=
  bodies.flatMap Segment.ofBody

/-- A frame. -/
def frame (header_size : Header) (body : List UInt8) : List UInt8 :=
  BigEndian.encode header_size.size body.length ++ body

/-- The bodies that a frame may have. -/
def Fits (header_size : Header) (body : List UInt8) : Prop :=
  body.length < 0x1000000 ∧ body.length < 256 ^ header_size.size

/-! ### What is expected -/

/-- What happens to a connection: the agent for it or the broker of the gate is set, or a chunk arrives. -/
inductive Event where
  | forward (agent client : ℕ)
  | broker (handle : ℕ)
  | data (chunk : List UInt8)

/-- The gate and the connection that is followed. -/
structure State where
  gate : Gate
  connection : Connection

/-- The commands of the gate. -/
def State.command (s : State) : Event → State
  | .forward agent client => { s with connection := { s.connection with agent := agent, client := client } }
  | .broker handle => { s with gate := { s.gate with broker := handle } }
  | .data _ => s

/-- What the gate does from event to event. -/
def run (s : State) : List Event → List Action
  | [] => []
  | .data chunk :: es =>
      let (actions, connection) := dispatchMessage s.gate s.connection chunk
      actions ++ run { s with connection := connection } es
  | e :: es => run (s.command e) es

/-- The bytes that arrive. -/
def received : List Event → List UInt8
  | [] => []
  | .data chunk :: es => chunk ++ received es
  | _ :: es => received es

/-- There is a destination for bodies. -/
def State.Destined (s : State) : Prop :=
  s.gate.broker ≠ 0 ∨ s.connection.agent ≠ 0 ∨ s.gate.watchdog ≠ 0

/-- The message for a body: to the broker if there is one, else to the agent, else to the watchdog. -/
def State.message (s : State) (body : List UInt8) : Option Send :=
  if s.gate.broker ≠ 0 then
    some ⟨0, s.gate.broker, s.gate.client_tag ||| PTYPE_TAG_DONTCOPY, 1, body⟩
  else if s.connection.agent ≠ 0 then
    some ⟨s.connection.client, s.connection.agent, s.gate.client_tag ||| PTYPE_TAG_DONTCOPY, 1, body⟩
  else if s.gate.watchdog ≠ 0 then
    some ⟨0, s.gate.watchdog, PTYPE_TEXT ||| PTYPE_TAG_DONTCOPY, 1, dataText s.connection.id ++ body⟩
  else none

/-- What is to be done with a part of the stream: it is read, and a body is sent on. -/
def State.actions (s : State) : Segment → List Action
  | .header n => [.header (BigEndian.encode s.gate.header_size.size n)]
  | .body b => .body b :: (s.message b).toList.map .send

/-- The parts of a stream that arrive with a chunk after `n` bytes. -/
def arriving (header_size : Header) (parts : List Segment) (n : ℕ) (chunk : List UInt8) : List Segment :=
  (arrived (Segment.length header_size) (n + chunk.length) parts).drop
    (arrived (Segment.length header_size) n parts).length

/-- What is to be done when events happen after `n` bytes. -/
def expected (parts : List Segment) (n : ℕ) (s : State) : List Event → List Action
  | [] => []
  | .data chunk :: es =>
      (arriving s.gate.header_size parts n chunk).flatMap s.actions ++
        expected parts (n + chunk.length) s es
  | e :: es => expected parts n (s.command e) es

/-- Every body that arrives finds a destination. -/
def Heard (parts : List Segment) (n : ℕ) (s : State) : List Event → Prop
  | [] => True
  | .data chunk :: es =>
      (∀ b, .body b ∈ arriving s.gate.header_size parts n chunk → s.Destined) ∧
        Heard parts (n + chunk.length) s es
  | e :: es => Heard parts n (s.command e) es

/-! ### One turn of the loop -/

section

variable {s : State} {db db' : Databuffer} {size : ℤ} {actions : List Action}

theorem turn_stop (h : db.readheader s.gate.header_size = (size, db', actions)) (hneg : size < 0) :
  turn s.gate s.connection db = (actions, db', false)
  := by rw [turn_eq h, if_pos hneg]

theorem turn_empty (h : db.readheader s.gate.header_size = (0, db', actions)) :
  turn s.gate s.connection db = (actions, db', true)
  := turn_eq h

theorem turn_body (h : db.readheader s.gate.header_size = (size, db', actions)) (hpos : 0 < size)
    (hsmall : size < 0x1000000) :
  turn s.gate s.connection db =
    (actions ++ (forward s.gate s.connection db' size.toNat (Databuffer.readheader_le h hpos)).1,
      { (forward s.gate s.connection db' size.toNat (Databuffer.readheader_le h hpos)).2 with
        header := 0 }, true)
  := by
  rw [turn_eq h, if_neg (Int.not_lt.mpr (Int.le_of_lt hpos)), dif_pos hpos,
    if_neg (Int.not_le.mpr hsmall)]

/-- A body that finds a destination is read and sent. -/
theorem forward_destined (hs : s.Destined) {n : ℕ} (h : n ≤ db.queue.size) :
  forward s.gate s.connection db n h =
    (s.actions (.body (db.queue.contents.take n)), { db with queue := (db.queue.read n h).2 })
  := by
  unfold forward State.actions State.message
  rw [← ChunkQueue.read_fst db.queue n h]
  by_cases hbroker : s.gate.broker ≠ 0
  · simp only [if_pos hbroker]
    rfl
  · by_cases hagent : s.connection.agent ≠ 0
    · simp only [if_neg hbroker, if_pos hagent]
      rfl
    · have hwatchdog : s.gate.watchdog ≠ 0 := (hs.resolve_left hbroker).resolve_left hagent
      simp only [if_neg hbroker, if_neg hagent, if_pos hwatchdog]
      rfl

/-- A body that finds none stays where it is. -/
theorem forward_undestined (hs : ¬ s.Destined) {n : ℕ} (h : n ≤ db.queue.size) :
  forward s.gate s.connection db n h = ([], db)
  := by
  unfold State.Destined at hs
  obtain ⟨hbroker, hs⟩ := not_or.mp hs
  obtain ⟨hagent, hwatchdog⟩ := not_or.mp hs
  unfold forward
  simp only [if_neg hbroker, if_neg hagent, if_neg hwatchdog]

end

/-! ### Staying in step -/

/-- The header that is remembered is that of the body that comes next, or a header comes next. -/
inductive Next (header_size : Header) : ℤ → List Segment → Prop
  | header {bodies : List (List UInt8)} (hbodies : ∀ b ∈ bodies, Fits header_size b) :
      Next header_size 0 (segments bodies)
  | body {b : List UInt8} {bodies : List (List UInt8)} (hne : b ≠ []) (hb : Fits header_size b)
      (hbodies : ∀ b ∈ bodies, Fits header_size b) :
      Next header_size b.length (.body b :: segments bodies)

/-- The buffer holds what has arrived of the parts `rest`; `future` has not arrived yet. -/
structure Synced (header_size : Header) (db : Databuffer) (rest : List Segment) (future : List UInt8) :
    Prop where
  next : Next header_size db.header rest
  contents : db.queue.contents ++ future = rest.flatMap (Segment.bytes header_size)

/-- The parts `taken` have been read and sent on. -/
structure Took (s : State) (db : Databuffer) (rest : List Segment) (future : List UInt8)
    (taken rest' : List Segment) (actions : List Action) (db' : Databuffer) : Prop where
  parts : rest = taken ++ rest'
  actions : actions = taken.flatMap s.actions
  synced : Synced s.gate.header_size db' rest' future
  size : total (Segment.length s.gate.header_size) taken + db'.queue.size = db.queue.size
  destined : ∀ b, .body b ∈ taken → s.Destined

/-- A body that has arrived is missed. -/
structure Missed (s : State) (db : Databuffer) (rest taken : List Segment) (b : List UInt8)
    (actions later : List Action) : Prop where
  undestined : ¬ s.Destined
  parts : ∃ rest', rest = taken ++ .body b :: rest'
  actions : actions = taken.flatMap s.actions ++ later
  size : total (Segment.length s.gate.header_size) taken + b.length ≤ db.queue.size

section

variable {s : State} {db db' : Databuffer} {rest : List Segment} {future : List UInt8}

/-- What comes first of a stream is taken off the front when it has arrived. -/
theorem take_front {xs ys zs : List UInt8} (h : xs ++ ys = b ++ zs) (hle : b.length ≤ xs.length) :
  xs.take b.length = b ∧ xs.drop b.length ++ ys = zs
  := by
  have htake := congrArg (List.take b.length) h
  have hdrop := congrArg (List.drop b.length) h
  rw [List.take_append_of_le_length hle, List.take_left] at htake
  rw [List.drop_append_of_le_length hle, List.drop_left] at hdrop
  exact ⟨htake, hdrop⟩

/-- What a turn may come to: the parts that have arrived are taken off the stream, or a body is missed. -/
def TurnCases (s : State) (db : Databuffer) (rest : List Segment) (future : List UInt8)
    (actions : List Action) (db' : Databuffer) (continues : Bool) : Prop :=
  (∃ taken rest', Took s db rest future taken rest' actions db' ∧ (continues = false →
    arrived (Segment.length s.gate.header_size) db'.queue.size rest' = [])) ∨
  (∃ taken b, Missed s db rest taken b actions [] ∧ db'.header = 0 ∧ continues = true)

/-- A turn once the header of a body has been read. -/
theorem turn_of_header (before : List Segment) {b : List UInt8} {bodies : List (List UInt8)}
    (hread : db.readheader s.gate.header_size = (db'.returned, db', before.flatMap s.actions))
    (hheader : db'.header = b.length) (hne : b ≠ []) (hb : Fits s.gate.header_size b)
    (hbodies : ∀ b ∈ bodies, Fits s.gate.header_size b)
    (hcontents : db'.queue.contents ++ future =
      b ++ (segments bodies).flatMap (Segment.bytes s.gate.header_size))
    (hsize : total (Segment.length s.gate.header_size) before + db'.queue.size = db.queue.size)
    (hbefore : ∀ c, .body c ∉ before) :
  TurnCases s db (before ++ .body b :: segments bodies) future (turn s.gate s.connection db).1
    (turn s.gate s.connection db).2.1 (turn s.gate s.connection db).2.2
  := by
  have hpos : 0 < b.length := List.length_pos_iff.mpr hne
  have hlength : Segment.length s.gate.header_size (.body b) = b.length := rfl
  by_cases hshort : db'.queue.size < b.length
  · have hret : db'.returned = -1 := by
      rw [Databuffer.returned, hheader, if_pos (by omega)]
    rw [hret] at hread
    rw [turn_stop hread (by decide)]
    left
    use before, .body b :: segments bodies
    constructor
    · constructor
      · rfl
      · rfl
      · constructor
        · rw [hheader]
          exact .body hne hb hbodies
        · rw [List.flatMap_cons]
          exact hcontents
      · exact hsize
      · intro c hc
        exact absurd hc (hbefore c)
    · intro _
      exact arrived_of_lt hshort
  · have hret : db'.returned = b.length := by
      rw [Databuffer.returned, hheader, if_neg (by omega)]
    have hle : b.length ≤ db'.queue.size := Nat.le_of_not_lt hshort
    have hsmall : (b.length : ℤ) < 0x1000000 := by
      have hsmall := hb.1
      omega
    rw [hret] at hread
    have hturn := turn_body hread (by omega) hsmall
    by_cases hs : s.Destined
    · rw [forward_destined hs] at hturn
      obtain ⟨htake, hdrop⟩ := take_front hcontents (by rwa [ChunkQueue.length_contents])
      have hturn : turn s.gate s.connection db =
          (before.flatMap s.actions ++ s.actions (.body (db'.queue.contents.take b.length)),
            ⟨0, (db'.queue.read b.length hle).2⟩, true) := hturn
      rw [hturn, htake]
      left
      use before ++ [.body b], segments bodies
      constructor
      · constructor
        · rw [List.append_assoc]
          rfl
        · rw [List.flatMap_append, List.flatMap_singleton]
        · constructor
          · exact .header hbodies
          · rw [ChunkQueue.contents_read]
            exact hdrop
        · rw [total_append, total_cons, total_nil, hlength, ChunkQueue.size_read]
          omega
        · exact fun _ _ => hs
      · rintro ⟨⟩
    · rw [forward_undestined hs, List.append_nil] at hturn
      rw [hturn]
      right
      use before, b
      constructor
      · constructor
        · exact hs
        · use segments bodies
        · rw [List.append_nil]
        · omega
      · exact ⟨rfl, rfl⟩

/-- The bytes of a frame are those of its parts. -/
theorem flatMap_segments_cons (header_size : Header) (b : List UInt8) (bs : List (List UInt8)) :
  (segments (b :: bs)).flatMap (Segment.bytes header_size) =
    BigEndian.encode header_size.size b.length ++
      (b ++ (segments bs).flatMap (Segment.bytes header_size))
  := by
  unfold segments
  rw [List.flatMap_cons, List.flatMap_append, Segment.ofBody]
  split_ifs with hb
  · rw [hb, List.flatMap_singleton]
    rfl
  · rw [List.flatMap_cons, List.flatMap_singleton, List.append_assoc]
    rfl

theorem flatMap_segments (header_size : Header) (bodies : List (List UInt8)) :
  (segments bodies).flatMap (Segment.bytes header_size) = bodies.flatMap (frame header_size)
  := by
  induction bodies with
  | nil => rfl
  | cons b bs ih =>
      rw [flatMap_segments_cons, ih, List.flatMap_cons, frame, List.append_assoc]

/-- The first part of a frame is its header. -/
theorem segments_cons (b : List UInt8) (bs : List (List UInt8)) :
  ∃ parts, segments (b :: bs) = .header b.length :: parts
  := by
  unfold segments
  rw [List.flatMap_cons, Segment.ofBody]
  split_ifs with hb
  · use segments bs
    rw [hb]
    rfl
  · use .body b :: segments bs
    rfl

theorem length_header (header_size : Header) (n : ℕ) :
  Segment.length header_size (.header n) = header_size.size
  := BigEndian.length_encode _ _

theorem parse_encode {header_size : Header} {b : List UInt8} (h : Fits header_size b) :
  header_size.parse (BigEndian.encode header_size.size b.length) = b.length
  := by
  have hdecode := BigEndian.decode_encode h.2
  have hsmall := h.1
  cases header_size with
  | S => exact congrArg Nat.cast hdecode
  | L =>
      have hparse (plen : List UInt8) : Header.L.parse plen = LittleEndian.toInt (BigEndian.decode plen) :=
        rfl
      rw [hparse, hdecode, LittleEndian.toInt_of_lt (by omega)]

/-- The header of the next frame is read when it has arrived. -/
theorem readheader_next {bodies : List (List UInt8)} (hheader : db.header = 0)
    (hbodies : ∀ b ∈ bodies, Fits s.gate.header_size b)
    (hcontents : db.queue.contents ++ future =
      (segments bodies).flatMap (Segment.bytes s.gate.header_size)) :
  (db.readheader s.gate.header_size = (-1, db, []) ∧
    arrived (Segment.length s.gate.header_size) db.queue.size (segments bodies) = []) ∨
  ∃ b bs, ∃ db' : Databuffer, bodies = b :: bs ∧ db'.header = b.length ∧
    db.readheader s.gate.header_size = (db'.returned, db', s.actions (.header b.length)) ∧
    db'.queue.contents ++ future = b ++ (segments bs).flatMap (Segment.bytes s.gate.header_size) ∧
    s.gate.header_size.size + db'.queue.size = db.queue.size
  := by
  by_cases hshort : db.queue.size < s.gate.header_size.size
  · left
    use Databuffer.readheader_short hheader hshort
    cases bodies with
    | nil => exact arrived_nil _
    | cons b bs =>
        obtain ⟨parts, hparts⟩ := segments_cons b bs
        rw [hparts]
        apply arrived_of_lt
        rwa [length_header]
  · right
    have hle := Nat.le_of_not_lt hshort
    cases bodies with
    | nil =>
        -- no bytes are left
        have hnil : db.queue.contents = [] := (List.append_eq_nil_iff.mp hcontents).1
        have hlength := db.queue.length_contents
        rw [hnil, List.length_nil] at hlength
        rw [← hlength] at hle
        cases hsize : s.gate.header_size <;> rw [hsize] at hle <;> contradiction
    | cons b bs =>
        rw [flatMap_segments_cons] at hcontents
        have hlength := BigEndian.length_encode s.gate.header_size.size b.length
        obtain ⟨htake, hdrop⟩ := take_front hcontents (by
          rwa [hlength, ChunkQueue.length_contents])
        rw [hlength] at htake hdrop
        have hread := Databuffer.readheader_read hheader hle
        rw [ChunkQueue.read_fst, htake, parse_encode (hbodies b List.mem_cons_self)] at hread
        refine ⟨b, bs, _, rfl, rfl, hread, ?_, ?_⟩
        · rw [ChunkQueue.contents_read]
          exact hdrop
        · rw [ChunkQueue.size_read]
          exact Nat.add_sub_of_le hle

/-- A turn of the loop takes the parts that have arrived off the stream, or misses a body. -/
theorem turn_cases (h : Synced s.gate.header_size db rest future) :
  TurnCases s db rest future (turn s.gate s.connection db).1 (turn s.gate s.connection db).2.1
    (turn s.gate s.connection db).2.2
  := by
  obtain ⟨hnext, hcontents⟩ := h
  generalize hheader : db.header = header at hnext
  cases hnext with
  | @header bodies hbodies =>
      obtain ⟨hread, hnone⟩ | ⟨b, bs, db', rfl, hheader', hread, hcontents', hsize⟩ :=
        readheader_next hheader hbodies hcontents
      · rw [turn_stop hread (by decide)]
        left
        use [], segments bodies
        constructor
        · constructor
          · rfl
          · rfl
          · constructor
            · rw [hheader]
              exact .header hbodies
            · exact hcontents
          · exact Nat.zero_add _
          · rintro c ⟨⟩
        · exact fun _ => hnone
      · have hb := hbodies b List.mem_cons_self
        have hbs := fun c hc => hbodies c (List.mem_cons_of_mem b hc)
        have hsize : total (Segment.length s.gate.header_size) [.header b.length] + db'.queue.size =
            db.queue.size := by
          rw [total_cons, total_nil, length_header]
          exact hsize
        have hnone (c : List UInt8) : Segment.body c ∉ [Segment.header b.length] := by
          intro hc
          cases List.mem_singleton.mp hc
        have hactions : s.actions (.header b.length) = [Segment.header b.length].flatMap s.actions := by
          rw [List.flatMap_singleton]
        rw [hactions] at hread
        by_cases hne : b = []
        · subst hne
          have hret : db'.returned = 0 := by
            rw [Databuffer.returned, hheader', if_neg]
            · rfl
            · exact Int.not_lt.mpr (Int.natCast_nonneg _)
          rw [hret] at hread
          rw [turn_empty hread]
          left
          use [.header 0], segments bs
          constructor
          · constructor
            · rfl
            · rfl
            · constructor
              · rw [hheader']
                exact .header hbs
              · exact hcontents'
            · exact hsize
            · intro c hc
              exact absurd hc (hnone c)
          · rintro ⟨⟩
        · have hparts : segments (b :: bs) = [.header b.length] ++ .body b :: segments bs := by
            unfold segments
            rw [List.flatMap_cons, Segment.ofBody, if_neg hne]
            rfl
          rw [hparts]
          exact turn_of_header _ hread hheader' hne hb hbs hcontents' hsize hnone
  | @body b bodies hne hb hbodies =>
      have hzero : db.header ≠ 0 := by
        have hpos := List.length_pos_iff.mpr hne
        omega
      rw [List.flatMap_cons] at hcontents
      exact turn_of_header [] (Databuffer.readheader_remembered hzero _) hheader hne hb hbodies
        hcontents (Nat.zero_add _) (by rintro c ⟨⟩)

/-! ### Chunks -/

/-- What has been read of the header comes first. -/
theorem turn_fst {size : ℤ} {actions : List Action}
    (h : db.readheader s.gate.header_size = (size, db', actions)) :
  ∃ more, (turn s.gate s.connection db).1 = actions ++ more
  := by
  rw [turn_eq h]
  split_ifs
  · exact ⟨[], (List.append_nil _).symm⟩
  · exact ⟨[.close s.connection.id], rfl⟩
  · exact ⟨_, rfl⟩
  · exact ⟨[], (List.append_nil _).symm⟩

theorem dispatchLoop_of_turn (h : (turn s.gate s.connection db).2.2 = true) :
  dispatchLoop s.gate s.connection db =
    ((turn s.gate s.connection db).1 ++
      (dispatchLoop s.gate s.connection (turn s.gate s.connection db).2.1).1,
      (dispatchLoop s.gate s.connection (turn s.gate s.connection db).2.1).2)
  := by rw [dispatchLoop, dif_pos h]

theorem dispatchLoop_of_stop (h : ¬ (turn s.gate s.connection db).2.2 = true) :
  dispatchLoop s.gate s.connection db =
    ((turn s.gate s.connection db).1, (turn s.gate s.connection db).2.1)
  := by rw [dispatchLoop, dif_neg h]

/-- The actions begin with a header, or there are none, and no header is remembered. -/
def Headed (actions : List Action) (db : Databuffer) : Prop :=
  (actions = [] ∧ db.header = 0) ∨ ∃ plen later, actions = .header plen :: later

/-- Where no header is remembered, one is read first. -/
theorem dispatchLoop_of_zero (s : State) (h : db.header = 0) :
  Headed (dispatchLoop s.gate s.connection db).1 (dispatchLoop s.gate s.connection db).2
  := by
  by_cases hshort : db.queue.size < s.gate.header_size.size
  · have hturn := turn_stop (Databuffer.readheader_short h hshort) (by decide)
    left
    rw [dispatchLoop_of_stop, hturn]
    · exact ⟨rfl, h⟩
    · rw [hturn]
      exact Bool.false_ne_true
  · right
    obtain ⟨more, hmore⟩ := turn_fst (Databuffer.readheader_read h (Nat.le_of_not_lt hshort))
    by_cases hgo : (turn s.gate s.connection db).2.2 = true
    · rw [dispatchLoop_of_turn hgo, hmore]
      exact ⟨_, _, rfl⟩
    · rw [dispatchLoop_of_stop hgo, hmore]
      exact ⟨_, _, rfl⟩

/-- The loop takes all parts that have arrived off the stream, or misses a body. -/
theorem dispatchLoop_cases (h : Synced s.gate.header_size db rest future) :
  (∃ taken rest', Took s db rest future taken rest' (dispatchLoop s.gate s.connection db).1
      (dispatchLoop s.gate s.connection db).2 ∧
    arrived (Segment.length s.gate.header_size) (dispatchLoop s.gate s.connection db).2.queue.size rest' = []) ∨
  (∃ taken b later, Missed s db rest taken b (dispatchLoop s.gate s.connection db).1 later ∧
    Headed later (dispatchLoop s.gate s.connection db).2)
  := by
  induction db using dispatchLoop.induct s.gate s.connection generalizing rest with
  | case1 db hgo _ _ _ ih =>
      rw [dispatchLoop_of_turn hgo]
      obtain ⟨taken, rest', htook, -⟩ | ⟨taken, b, hmissed, hzero, -⟩ := turn_cases h
      · obtain ⟨taken', rest'', htook', hnone⟩ | ⟨taken', b, later, hmissed, hlater⟩ := ih htook.synced
        · left
          use taken ++ taken', rest''
          constructor
          · constructor
            · rw [htook.parts, htook'.parts, List.append_assoc]
            · rw [List.flatMap_append, htook.actions, htook'.actions]
            · exact htook'.synced
            · rw [total_append, Nat.add_assoc, htook'.size, htook.size]
            · intro c hc
              rcases List.mem_append.mp hc with hc | hc
              · exact htook.destined c hc
              · exact htook'.destined c hc
          · exact hnone
        · right
          use taken ++ taken', b, later
          constructor
          · constructor
            · exact hmissed.undestined
            · obtain ⟨rest'', hparts⟩ := hmissed.parts
              use rest''
              rw [htook.parts, hparts, List.append_assoc]
            · rw [List.flatMap_append, htook.actions, hmissed.actions, List.append_assoc]
            · rw [total_append, ← htook.size, Nat.add_assoc]
              exact Nat.add_le_add_left hmissed.size _
          · exact hlater
      · right
        use taken, b, (dispatchLoop s.gate s.connection (turn s.gate s.connection db).2.1).1
        constructor
        · constructor
          · exact hmissed.undestined
          · exact hmissed.parts
          · rw [hmissed.actions, List.append_nil]
          · exact hmissed.size
        · exact dispatchLoop_of_zero s hzero
  | case2 db hstop =>
      rw [dispatchLoop_of_stop hstop]
      obtain ⟨taken, rest', htook, hnone⟩ | ⟨taken, b, -, -, hgo⟩ := turn_cases h
      · left
        use taken, rest', htook
        exact hnone (Bool.eq_false_of_not_eq_true hstop)
      · exact absurd hgo hstop

/-! ### Runs -/

/-- The state with another buffer. -/
def State.withBuffer (s : State) (db : Databuffer) : State :=
  { s with connection := { s.connection with buffer := db } }

/-- What is expected does not depend on the buffer. -/
theorem expected_withBuffer (parts : List Segment) (n : ℕ) (s : State) (db : Databuffer)
    (es : List Event) :
  expected parts n (s.withBuffer db) es = expected parts n s es
  := by
  induction es generalizing n s with
  | nil => rfl
  | cons e es ih =>
      cases e with
      | forward agent client => exact ih n (s.command (.forward agent client))
      | broker handle => exact ih n (s.command (.broker handle))
      | data chunk =>
          rw [expected, expected, ih]
          rfl

theorem heard_withBuffer (parts : List Segment) (n : ℕ) (s : State) (db : Databuffer)
    (es : List Event) :
  Heard parts n (s.withBuffer db) es ↔ Heard parts n s es
  := by
  induction es generalizing n s with
  | nil => exact Iff.rfl
  | cons e es ih =>
      cases e with
      | forward agent client => exact ih n (s.command (.forward agent client))
      | broker handle => exact ih n (s.command (.broker handle))
      | data chunk =>
          rw [Heard, Heard, ih]
          rfl

theorem run_data (s : State) (chunk : List UInt8) (es : List Event) :
  run s (.data chunk :: es) =
    (dispatchLoop s.gate s.connection
      { s.connection.buffer with queue := s.connection.buffer.queue.push chunk }).1 ++
    run (s.withBuffer (dispatchLoop s.gate s.connection
      { s.connection.buffer with queue := s.connection.buffer.queue.push chunk }).2) es
  := rfl

/-- Where no header is remembered, a run begins with a header, if with anything. -/
theorem run_headed (es : List Event) (h : s.connection.buffer.header = 0) :
  run s es = [] ∨ ∃ plen later, run s es = .header plen :: later
  := by
  induction es generalizing s with
  | nil => exact .inl rfl
  | cons e es ih =>
      cases e with
      | forward agent client => exact ih (s := s.command (.forward agent client)) h
      | broker handle => exact ih (s := s.command (.broker handle)) h
      | data chunk =>
          rw [run_data]
          have hheader : Databuffer.header { s.connection.buffer with
              queue := s.connection.buffer.queue.push chunk } = 0 := h
          obtain ⟨hnone, hzero⟩ | ⟨plen, later, hlater⟩ := dispatchLoop_of_zero s hheader
          · rw [hnone, List.nil_append]
            exact ih hzero
          · right
            rw [hlater]
            exact ⟨plen, _, rfl⟩

/-- A chunk is appended to what has arrived. -/
theorem Synced.push {header_size : Header} (h : Synced header_size db rest (chunk ++ future)) :
  Synced header_size { db with queue := db.queue.push chunk } rest future
  := by
  use h.next
  rw [ChunkQueue.contents_push, List.append_assoc]
  exact h.contents

/-- What the gate does is what is expected precisely when every body that arrives finds a destination. -/
theorem run_iff {parts done : List Segment} {n : ℕ} {es : List Event} {after : List UInt8}
    (hparts : parts = done ++ rest)
    (hn : total (Segment.length s.gate.header_size) done + s.connection.buffer.queue.size = n)
    (hnone : arrived (Segment.length s.gate.header_size) s.connection.buffer.queue.size rest = [])
    (h : Synced s.gate.header_size s.connection.buffer rest (received es ++ after)) :
  run s es = expected parts n s es ↔ Heard parts n s es
  := by
  induction es generalizing s done rest n with
  | nil => exact iff_of_true rfl trivial
  | cons e es ih =>
      cases e with
      | forward agent client => exact ih (s := s.command (.forward agent client)) hparts hn hnone h
      | broker handle => exact ih (s := s.command (.broker handle)) hparts hn hnone h
      | data chunk =>
          rw [received, List.append_assoc] at h
          have hbefore : arrived (Segment.length s.gate.header_size) n parts = done := by
            rw [hparts, ← hn]
            exact arrived_of_taken hnone
          have hsize : n + chunk.length = total (Segment.length s.gate.header_size) done +
              (s.connection.buffer.queue.push chunk).size := by
            rw [← hn, Nat.add_assoc]
            rfl
          rw [run_data, expected, Heard]
          obtain ⟨taken, rest', htook, hnone'⟩ | ⟨taken, b, later, hmissed, hheaded⟩ :=
            dispatchLoop_cases h.push
          · have harriving : arriving s.gate.header_size parts n chunk = taken := by
              rw [arriving, hbefore, hsize, hparts, htook.parts, ← List.append_assoc, ← htook.size,
                ← Nat.add_assoc, ← total_append, arrived_of_taken hnone', List.drop_left]
            rw [harriving, htook.actions, List.append_cancel_left_eq, ← expected_withBuffer,
              ← heard_withBuffer, and_iff_right htook.destined]
            have hparts' : parts = done ++ taken ++ rest' := by
              rw [hparts, htook.parts, List.append_assoc]
            have hn' : total (Segment.length s.gate.header_size) (done ++ taken) +
                (dispatchLoop s.gate s.connection { s.connection.buffer with
                  queue := s.connection.buffer.queue.push chunk }).2.queue.size = n + chunk.length := by
              rw [total_append, hsize, Nat.add_assoc]
              exact congrArg _ htook.size
            exact ih (s := s.withBuffer _) hparts' hn' hnone' htook.synced
          · obtain ⟨rest', hrest⟩ := hmissed.parts
            obtain ⟨more, harriving⟩ : ∃ more, arriving s.gate.header_size parts n chunk =
                taken ++ .body b :: more := by
              obtain ⟨k, hk⟩ := Nat.exists_eq_add_of_le hmissed.size
              have hlength : Segment.length s.gate.header_size (.body b) = b.length := rfl
              have hk : (s.connection.buffer.queue.push chunk).size =
                total (Segment.length s.gate.header_size) (taken ++ [.body b]) + k := by
                rw [total_append, total_cons, total_nil, hlength]
                exact hk
              have hrest : rest = (taken ++ [.body b]) ++ rest' := by
                rw [List.append_assoc]
                exact hrest
              use arrived (Segment.length s.gate.header_size) k rest'
              rw [arriving, hbefore, hsize, hparts, hrest, arrived_append, hk, arrived_append,
                List.drop_left, List.append_assoc]
              rfl
            apply iff_of_false
            · intro heq
              rw [harriving, hmissed.actions, List.flatMap_append, List.append_assoc, List.append_assoc,
                List.append_cancel_left_eq, List.flatMap_cons, List.append_assoc] at heq
              -- the gate goes on with a header, if at all
              obtain ⟨rfl, hzero⟩ | ⟨plen, later', rfl⟩ := hheaded
              · rw [List.nil_append] at heq
                obtain hnil | ⟨plen, later', hlater⟩ := run_headed (s := s.withBuffer _) es hzero
                · rw [hnil] at heq
                  cases heq
                · rw [hlater] at heq
                  cases heq
              · cases heq
            · rintro ⟨hdestined, -⟩
              apply hmissed.undestined
              apply hdestined b
              rw [harriving]
              exact List.mem_append_right _ List.mem_cons_self

/-- However a stream of frames is divided into chunks, and whatever commands come in between, the gate reads
each header and each body once and sends each body on when it arrives, precisely when every body that arrives
finds a destination. -/
theorem stream_kept_iff {bodies : List (List UInt8)} {es : List Event} (after : List UInt8)
    (hbodies : ∀ b ∈ bodies, Fits s.gate.header_size b) (hnew : s.connection.buffer = .clear)
    (hstream : received es ++ after = bodies.flatMap (frame s.gate.header_size)) :
  run s es = expected (segments bodies) 0 s es ↔ Heard (segments bodies) 0 s es
  := by
  have hparts : segments bodies = [] ++ segments bodies := rfl
  have hsize : s.connection.buffer.queue.size = 0 := by
    rw [hnew]
    rfl
  apply run_iff hparts
  · exact (Nat.zero_add _).trans hsize
  · rw [hsize]
    cases bodies with
    | nil => rfl
    | cons b bs =>
        obtain ⟨parts, hparts⟩ := segments_cons b bs
        rw [hparts]
        apply arrived_of_lt
        rw [length_header]
        cases s.gate.header_size <;> decide
  · rw [hnew]
    constructor
    · exact .header hbodies
    · rw [flatMap_segments]
      exact hstream

end

/-- A frame that goes to the broker, in two chunks. -/
theorem stream_kept_iff_broker :
  run ⟨⟨0, 9, 3, .S⟩, ⟨1, 0, 0, .clear⟩⟩ [.data [0], .data [1, 7]] =
      expected (segments [[7]]) 0 ⟨⟨0, 9, 3, .S⟩, ⟨1, 0, 0, .clear⟩⟩ [.data [0], .data [1, 7]] ↔
    Heard (segments [[7]]) 0 ⟨⟨0, 9, 3, .S⟩, ⟨1, 0, 0, .clear⟩⟩ [.data [0], .data [1, 7]]
  := by
  have hfits : ∀ b ∈ [[7]], Fits .S b := by
    intro b hb
    rw [List.mem_singleton.mp hb]
    exact ⟨by decide, by decide⟩
  exact stream_kept_iff [] hfits rfl (by decide)

/-- Without any destination the body of a frame is not read. -/
theorem body_not_read :
  received [.data [0, 1, 7]] = [[7]].flatMap (frame .S) ∧
    run ⟨⟨0, 0, 3, .S⟩, ⟨1, 0, 0, .clear⟩⟩ [.data [0, 1, 7]] ≠
      expected (segments [[7]]) 0 ⟨⟨0, 0, 3, .S⟩, ⟨1, 0, 0, .clear⟩⟩ [.data [0, 1, 7]]
  := by decide +kernel

end ServiceGate

end Skynet
