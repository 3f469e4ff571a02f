import FWServer.Kernel.Machine
import FWServer.Skynet.SocketQueue

/-!
# Connections

A connection is followed from the time its socket has been made: the packages accepted for its id, the bytes
written to its file descriptor, and the requests and events that have come.  The results of all reads and writes
are left to the environment, and so is the order of the requests and events.  When the socket has been closed its
slot may get into other hands.

Every function keeps the lists of the socket in order (`Queue`) or closes it.
-/

namespace Skynet

/-- The types of a socket that is connected, or may still be. -/
def SocketType.alive : SocketType → Bool
  | .connecting => true
  | .connected => true
  | .halfclose => true
  | .paccept => true
  | _ => false

/-- One of the results is an error. -/
def Failing (results : List WriteResult) : Prop :=
  ∃ text, WriteResult.error text ∈ results

/-- A TCP socket in use: its lists are in order. -/
structure Alive (id : ℕ) (s : Socket) (accepted : List Package) (sent : List UInt8) : Prop where
  id : s.id = id
  protocol : s.protocol = .tcp
  type : s.type.alive = true
  queue : Queue s accepted sent

/-! ### What the functions do -/

section Functions

variable {id : ℕ} {s : Socket} {accepted : List Package} {sent : List UInt8} {results : List WriteResult}
  {x : Outcome}

/-- The socket after it has been closed. -/
def Socket.gone (s : Socket) : Socket :=
  { s with high := [], low := [], type := .invalid }

theorem Socket.closeWith_of_alive (h : s.type.alive = true) (sent : List UInt8) (rest : List WriteResult)
    (reply : Reply) :
  s.closeWith sent rest reply = .ok ⟨s.gone, sent, true, false, rest, reply⟩
  := by
  rw [closeWith, forceClose]
  cases htype : s.type with
  | connecting => rfl
  | connected => rfl
  | halfclose => rfl
  | paccept => rfl
  | _ =>
      rw [htype] at h
      cases h

/-- The results left are among the results, and so is an error if there has been one. -/
theorem results_sendListTcp {list : List WriteBuffer} {x : Sent} (hx : sendListTcp list results = some x) :
  x.rest ⊆ results ∧ (x.failed = true → Failing results)
  := by
  fun_induction sendListTcp list results generalizing x with
  | case1 results =>
      obtain rfl := Option.some.inj hx
      exact ⟨fun _ => id, by rintro ⟨⟩⟩
  | case2 => cases hx
  | case3 tmp list results ih =>
      obtain ⟨hrest, hfailed⟩ := ih hx
      refine ⟨fun _ hr => .tail _ (hrest hr), fun h => ?_⟩
      obtain ⟨text, htext⟩ := hfailed h
      exact ⟨text, .tail _ htext⟩
  | case4 tmp list results =>
      obtain rfl := Option.some.inj hx
      exact ⟨fun _ => .tail _, by rintro ⟨⟩⟩
  | case5 tmp list text results =>
      obtain rfl := Option.some.inj hx
      exact ⟨fun _ => .tail _, fun _ => ⟨text, .head _⟩⟩
  | case6 => cases hx
  | case7 tmp list n results hle hne =>
      obtain rfl := Option.some.inj hx
      exact ⟨fun _ => .tail _, by rintro ⟨⟩⟩
  | case8 tmp list n results hle heq ih =>
      obtain ⟨y, hy, rfl⟩ := Option.map_eq_some_iff.mp hx
      obtain ⟨hrest, hfailed⟩ := ih hy
      refine ⟨fun _ hr => .tail _ (hrest hr), fun h => ?_⟩
      obtain ⟨text, htext⟩ := hfailed h
      exact ⟨text, .tail _ htext⟩

/-- What becomes of a socket in use: it stays so, with the type `type`, or it is closed, and then everything accepted
has been written or there is an excuse for it. -/
inductive Becomes (id : ℕ) (accepted : List Package) (sent : List UInt8) (type : SocketType) (excuse : Prop)
    (x : Outcome) : Prop
  | alive : x.closed = false → Alive id x.socket accepted (sent ++ x.sent) → x.socket.type = type →
      Becomes id accepted sent type excuse x
  | gone : x.closed = true → x.socket.type = .invalid → Whole accepted (sent ++ x.sent) →
      Complete accepted (sent ++ x.sent) ∨ excuse → Becomes id accepted sent type excuse x

theorem Becomes.imp {type : SocketType} {excuse excuse' : Prop} (h : Becomes id accepted sent type excuse x)
    (himp : excuse → excuse') :
  Becomes id accepted sent type excuse' x
  := by
  cases h with
  | alive hclosed halive htype => exact .alive hclosed halive htype
  | gone hclosed hinvalid hwhole hcomplete => exact .gone hclosed hinvalid hwhole (hcomplete.imp_right himp)

/-- What a function results in that accepts no package: it tells whether the socket has been closed. -/
structure Flushed (id : ℕ) (accepted : List Package) (sent : List UInt8) (type : SocketType) (excuse : Prop)
    (x : Outcome) : Prop where
  refused : x.accepted = false
  becomes : Becomes id accepted sent type excuse x
  reply : if x.closed then ∃ m, x.reply = .close m else x.reply = .none ∨ ∃ m, x.reply = .warning m

theorem Flushed.imp {type : SocketType} {excuse excuse' : Prop} (h : Flushed id accepted sent type excuse x)
    (himp : excuse → excuse') :
  Flushed id accepted sent type excuse' x
  := ⟨h.refused, h.becomes.imp himp, h.reply⟩

theorem Alive.congr (h : Alive id s accepted sent) {s' : Socket} (hid : s'.id = s.id)
    (hprotocol : s'.protocol = s.protocol) (htype : s'.type = s.type) (hhigh : s'.high = s.high)
    (hlow : s'.low = s.low) (hsize : s'.wbSize = s.wbSize) :
  Alive id s' accepted sent
  := ⟨hid.trans h.id, hprotocol.trans h.protocol, htype ▸ h.type, h.queue.congr hhigh hlow hsize⟩

/-- A socket in use is closed. -/
theorem Alive.closeWith (h : Alive id s accepted sent) (type : SocketType) {written : List UInt8}
    {rest : List WriteResult} {reply : Reply} {before : List UInt8} (hsent : sent = before ++ written)
    {excuse : Prop} (hexcuse : Complete accepted sent ∨ excuse) (hx : s.closeWith written rest reply = .ok x) :
  x.accepted = false ∧ Becomes id accepted before type excuse x ∧ x.closed = true ∧ x.reply = reply
  := by
  rw [Socket.closeWith_of_alive h.type] at hx
  obtain rfl := Except.ok.inj hx
  subst hsent
  exact ⟨rfl, .gone rfl rfl h.queue.whole hexcuse, rfl, rfl⟩

theorem Alive.flushed_closeWith (h : Alive id s accepted sent) {written : List UInt8} {rest : List WriteResult}
    {m : SocketMessage} {before : List UInt8} (hsent : sent = before ++ written) {type : SocketType}
    {excuse : Prop} (hexcuse : Complete accepted sent ∨ excuse)
    (hx : s.closeWith written rest (.close m) = .ok x) :
  Flushed id accepted before type excuse x
  := by
  obtain ⟨haccepted, hbecomes, hclosed, hreply⟩ := h.closeWith type hsent hexcuse hx
  refine ⟨haccepted, hbecomes, ?_⟩
  rw [hclosed, if_pos rfl]
  exact ⟨m, hreply⟩

/-- Step 4 of `send_buffer` closes a socket that is half closed, with everything written. -/
theorem Alive.sendBufferDone (h : Alive id s accepted sent) {written : List UInt8} {rest : List WriteResult}
    {before : List UInt8} (hsent : sent = before ++ written) (hx : s.sendBufferDone written rest = .ok x) :
  Flushed id accepted before s.type False x
  := by
  rw [Socket.sendBufferDone] at hx
  split at hx
  · cases hx
  · next hempty =>
      have hempty := (not_not.mp hempty).1
      rw [Socket.sendBufferEmpty, decide_eq_true_eq] at hempty
      split at hx
      · exact h.flushed_closeWith hsent (.inl (h.queue.complete hempty.1 hempty.2)) hx
      · subst hsent
        split at hx
        · obtain rfl := Except.ok.inj hx
          exact ⟨rfl, .alive rfl (h.congr rfl rfl rfl rfl rfl rfl) rfl, .inr ⟨_, rfl⟩⟩
        · obtain rfl := Except.ok.inj hx
          exact ⟨rfl, .alive rfl h rfl, .inl rfl⟩

/-- The rest of `send_buffer`, from step 2 on, when `s` has nothing in the list of high priority. -/
theorem Alive.sendBufferLow (h : Alive id s accepted sent) (hhigh : s.high = []) {written : List UInt8}
    {before : List UInt8} (hsent : sent = before ++ written) {low : Sent}
    (hlow : sendListTcp s.low results = some low)
    (hx : (let s₂ : Socket := { s with low := low.list, wbSize := s.wbSize - low.sent.length }
      if low.failed then s₂.closeWith (written ++ low.sent) low.rest (.close (s₂.message 0 none))
      else if listUncomplete s₂.low then
        match s₂.raiseUncomplete with
        | .ok s => .ok ⟨s, written ++ low.sent, false, false, low.rest, .none⟩
        | .error e => .error e
      else s₂.sendBufferDone (written ++ low.sent) low.rest) = .ok x) :
  Flushed id accepted before s.type (Failing results) x
  := by
  obtain ⟨-, hfailing⟩ := results_sendListTcp hlow
  subst hsent
  dsimp only at hx
  split at hx
  · next hfailed =>
      let s₂ : Socket := { s with low := low.list, wbSize := s.wbSize - low.sent.length }
      have hclose := Socket.closeWith_of_alive (s := s₂) h.type (written ++ low.sent) low.rest
        (.close (s₂.message 0 none))
      obtain rfl := Except.ok.inj (hclose.symm.trans hx)
      have hwhole := h.queue.whole_sendLow hhigh hlow
      rw [List.append_assoc] at hwhole
      exact ⟨rfl, .gone rfl rfl hwhole (.inr (hfailing hfailed)), _, rfl⟩
  · cases hlist : low.list with
    | nil =>
        rw [hlist] at hx
        have hdrained := h.queue.drained hhigh hlow hlist
        rw [List.append_assoc] at hdrained
        have halive : Alive id { s with low := [], wbSize := s.wbSize - low.sent.length } accepted
            (before ++ (written ++ low.sent)) := ⟨h.id, h.protocol, h.type, hdrained⟩
        exact (halive.sendBufferDone rfl hx).imp False.elim
    | cons tmp list =>
        rw [hlist] at hx
        split at hx
        · rw [Socket.raiseUncomplete] at hx
          dsimp only at hx
          rw [if_pos hhigh] at hx
          obtain rfl := Except.ok.inj hx
          have hraised := h.queue.raised hhigh hlow hlist
          rw [List.append_assoc] at hraised
          exact ⟨rfl, .alive rfl ⟨h.id, h.protocol, h.type, hraised⟩ rfl, .inl rfl⟩
        · rw [Socket.sendBufferDone, Socket.sendBufferEmpty] at hx
          simp at hx

/-- `send_buffer` keeps the lists in order; it closes the socket after an error, or when it is half closed and
everything has been written. -/
theorem Alive.sendBuffer (h : Alive id s accepted sent) (hx : s.sendBuffer results = .ok x) :
  Flushed id accepted sent s.type (Failing results) x
  := by
  have hsend : ∀ list results, sendList s.protocol list results = sendListTcp list results := by
    intro list results
    rw [h.protocol]
    rfl
  rw [Socket.sendBuffer] at hx
  simp only [hsend] at hx
  split at hx
  · cases hx
  · cases hhigh : sendListTcp s.high results with
    | none =>
        rw [hhigh] at hx
        cases hx
    | some high =>
        rw [hhigh] at hx
        dsimp only at hx
        obtain ⟨hrest, hfailing⟩ := results_sendListTcp hhigh
        let s₁ : Socket := { s with high := high.list, wbSize := s.wbSize - high.sent.length }
        have h₁ : Alive id s₁ accepted (sent ++ high.sent) := ⟨h.id, h.protocol, h.type, h.queue.sendHigh hhigh⟩
        split at hx
        · next hfailed => exact h₁.flushed_closeWith rfl (.inr (hfailing hfailed)) hx
        · split at hx
          · next hempty =>
              split at hx
              · cases hlow : sendListTcp s.low high.rest with
                | none =>
                    rw [hlow] at hx
                    cases hx
                | some low =>
                    rw [hlow] at hx
                    apply (h₁.sendBufferLow hempty rfl hlow hx).imp
                    rintro ⟨text, htext⟩
                    exact ⟨text, hrest htext⟩
              · exact (h₁.sendBufferDone rfl hx).imp False.elim
          · obtain rfl := Except.ok.inj hx
            exact ⟨rfl, .alive rfl h₁ rfl, .inl rfl⟩

/-- What becomes of a socket that is asked to send a package. -/
def Sends (id : ℕ) (accepted : List Package) (sent : List UInt8) (package : Package) (s : Socket)
    (results : List WriteResult) (x : Outcome) : Prop :=
  (x.accepted = true → s.type ≠ .halfclose) ∧
    Becomes id (if x.accepted then accepted ++ [package] else accepted) sent s.type (Failing results) x

theorem Alive.appended (h : Alive id s accepted sent) (rest : List WriteResult) (excuse : Prop)
    {written before : List UInt8} (hsent : sent = before ++ written) :
  (s.appended written rest).accepted = true ∧
    Becomes id accepted before s.type excuse (s.appended written rest)
  := by
  subst hsent
  rw [Socket.appended]
  split
  · exact ⟨rfl, .alive rfl (h.congr rfl rfl rfl rfl rfl rfl) rfl⟩
  · exact ⟨rfl, .alive rfl h rfl⟩

/-- The write of a package on a socket with nothing queued. -/
theorem Alive.sendDirect (h : Alive id s accepted sent) (hhigh : s.high = []) (hlow : s.low = [])
    (htype : s.type ≠ .halfclose) {request : RequestSend} {priority : Priority}
    (hx : s.sendDirect request priority results = .ok x) :
  Sends id accepted sent ⟨priority, request.bytes⟩ s results x
  := by
  have hcounted : ∀ (n : ℕ) (rest : List WriteResult),
      (if n > request.bytes.length then Except.error Fault.unfit
        else if n = request.bytes.length then .ok ⟨s, request.bytes, false, true, rest, .none⟩
        else .ok ((s.append request .high n).appended (request.bytes.take n) rest)) = Except.ok x →
      Sends id accepted sent ⟨priority, request.bytes⟩ s results x := by
    intro n rest hx
    split at hx
    · cases hx
    · split at hx
      · obtain rfl := Except.ok.inj hx
        refine ⟨fun _ => htype, .alive rfl ⟨h.id, h.protocol, h.type, ?_⟩ rfl⟩
        exact h.queue.written hhigh hlow ⟨priority, request.bytes⟩
      · obtain rfl := Except.ok.inj hx
        have hbegun : Alive id (s.append request .high n) (accepted ++ [⟨priority, request.bytes⟩])
            (sent ++ request.bytes.take n) :=
          ⟨h.id, h.protocol, h.type, h.queue.begun hhigh hlow request priority n⟩
        obtain ⟨haccepted, hbecomes⟩ := hbegun.appended rest (Failing results) rfl
        refine ⟨fun _ => htype, ?_⟩
        rw [haccepted]
        exact hbecomes
  cases results with
  | nil => cases hx
  | cons result rest =>
      cases result with
      | error text =>
          simp only [Socket.sendDirect, h.protocol] at hx
          obtain ⟨haccepted, hbecomes, -⟩ := h.closeWith s.type (List.append_nil sent).symm
            (.inr (⟨text, .head _⟩ : Failing (.error text :: rest))) hx
          refine ⟨fun _ => htype, ?_⟩
          rw [haccepted]
          exact hbecomes
      | count n =>
          simp only [Socket.sendDirect, h.protocol] at hx
          exact hcounted n rest hx
      | intr =>
          simp only [Socket.sendDirect, h.protocol] at hx
          exact hcounted 0 rest hx
      | again =>
          simp only [Socket.sendDirect, h.protocol] at hx
          exact hcounted 0 rest hx

theorem append_type (s : Socket) (request : RequestSend) (priority : Priority) (n : ℕ) :
  (s.append request priority n).type = s.type ∧ (s.append request priority n).id = s.id ∧
    (s.append request priority n).protocol = s.protocol
  := by
  cases priority with
  | high => exact ⟨rfl, rfl, rfl⟩
  | low => exact ⟨rfl, rfl, rfl⟩

theorem Alive.unchanged (h : Alive id s accepted sent) {results : List WriteResult} {reply : Reply}
    {excuse : Prop} :
  Becomes id accepted sent s.type excuse (s.unchanged results reply)
  := by
  refine .alive rfl ?_ rfl
  rw [Socket.unchanged, List.append_nil]
  exact h

/-- `send_socket` keeps the lists in order; a socket that is half closed accepts nothing. -/
theorem Alive.sendSocket (h : Alive id s accepted sent) {request : RequestSend} {priority : Priority}
    (hx : s.sendSocket request priority results = .ok x) :
  Sends id accepted sent ⟨priority, request.bytes⟩ s results x
  := by
  rw [Socket.sendSocket] at hx
  split at hx
  · obtain rfl := Except.ok.inj hx
    exact ⟨by rintro ⟨⟩, h.unchanged⟩
  · next hguard =>
      have htype : s.type ≠ .halfclose := fun htype => hguard (.inr (.inr (.inl htype)))
      split at hx
      · obtain rfl := Except.ok.inj hx
        exact ⟨by rintro ⟨⟩, h.unchanged⟩
      · split at hx
        · next hdirect =>
            rw [Socket.sendBufferEmpty, decide_eq_true_eq] at hdirect
            exact h.sendDirect hdirect.1.1 hdirect.1.2 htype hx
        · obtain rfl := Except.ok.inj hx
          obtain ⟨htype', hid, hprotocol⟩ := append_type s request priority 0
          have happended : Alive id (s.append request priority 0) (accepted ++ [⟨priority, request.bytes⟩]) sent :=
            ⟨hid.trans h.id, hprotocol.trans h.protocol, htype' ▸ h.type, h.queue.append request priority⟩
          obtain ⟨haccepted, hbecomes⟩ := happended.appended results (Failing results)
            (List.append_nil sent).symm
          refine ⟨fun _ => htype, ?_⟩
          rw [haccepted, ← htype']
          exact hbecomes

theorem Alive.valid (h : Alive id s accepted sent) :
  ¬ (s.type = .invalid ∨ s.id ≠ id)
  := by
  rintro (htype | hid)
  · have halive := h.type
    rw [htype] at halive
    cases halive
  · exact hid h.id

/-- The end of `close_socket`. -/
theorem Alive.closeRest (h : Alive id s accepted sent) {written before : List UInt8} {rest : List WriteResult}
    {shutdown : Bool} {reply : Reply} (hsent : sent = before ++ written)
    (hx : (if shutdown = true ∨ s.sendBufferEmpty = true then s.closeWith written rest reply
      else .ok ⟨{ s with type := .halfclose }, written, false, false, rest, .none⟩) = .ok x) :
  x.accepted = false ∧ Becomes id accepted before .halfclose (shutdown = true) x
  := by
  split at hx
  · next hclose =>
      have hexcuse : Complete accepted sent ∨ shutdown = true := by
        rcases hclose with hshutdown | hempty
        · exact .inr hshutdown
        · rw [Socket.sendBufferEmpty, decide_eq_true_eq] at hempty
          exact .inl (h.queue.complete hempty.1 hempty.2)
      obtain ⟨haccepted, hbecomes, -⟩ := h.closeWith _ hsent hexcuse hx
      exact ⟨haccepted, hbecomes⟩
  · obtain rfl := Except.ok.inj hx
    subst hsent
    exact ⟨rfl, .alive rfl ⟨h.id, h.protocol, rfl, h.queue.congr rfl rfl rfl⟩ rfl⟩

/-- `close_socket` closes the socket if nothing is queued any more, or if it is told to, and otherwise makes it half
closed. -/
theorem Alive.closeSocket (h : Alive id s accepted sent) {shutdown : Bool} {opaqueId : ℕ}
    (hx : s.closeSocket id shutdown opaqueId results = .ok x) :
  x.accepted = false ∧ Becomes id accepted sent .halfclose (Failing results ∨ shutdown = true) x
  := by
  rw [Socket.closeSocket] at hx
  dsimp only at hx
  rw [if_neg h.valid] at hx
  split at hx
  · cases hy : s.sendBuffer results with
    | error e =>
        rw [hy] at hx
        cases hx
    | ok y =>
        rw [hy] at hx
        dsimp only at hx
        obtain ⟨haccepted, hbecomes, hreply⟩ := h.sendBuffer hy
        cases hbecomes with
        | alive hclosed halive htype =>
            rw [hclosed, if_neg nofun] at hreply
            rcases hreply with hreply | ⟨m, hreply⟩
            · rw [hreply] at hx
              obtain ⟨haccepted, hbecomes⟩ := halive.closeRest rfl hx
              exact ⟨haccepted, hbecomes.imp Or.inr⟩
            · rw [hreply] at hx
              obtain ⟨haccepted, hbecomes⟩ := halive.closeRest rfl hx
              exact ⟨haccepted, hbecomes.imp Or.inr⟩
        | gone hclosed hinvalid hwhole hcomplete =>
            rw [hclosed, if_pos rfl] at hreply
            obtain ⟨m, hreply⟩ := hreply
            rw [hreply] at hx
            obtain rfl := Except.ok.inj hx
            exact ⟨haccepted, .gone hclosed hinvalid hwhole (hcomplete.imp_right Or.inl)⟩
  · obtain ⟨haccepted, hbecomes⟩ := h.closeRest (List.append_nil sent).symm hx
    exact ⟨haccepted, hbecomes.imp Or.inr⟩

/-- The type of a socket after `start_socket`. -/
def SocketType.started : SocketType → SocketType
  | .paccept => .connected
  | type => type

/-- `start_socket` closes the socket only if it cannot be added to the event poll. -/
theorem Alive.startSocket (h : Alive id s accepted sent) {opaqueId : ℕ} {failure : Option String}
    (hx : s.startSocket id opaqueId failure = .ok x) :
  x.accepted = false ∧ Becomes id accepted sent s.type.started (failure.isSome = true ∧ s.type = .paccept) x
  := by
  unfold Socket.startSocket at hx
  rw [if_neg h.valid] at hx
  have hpassive : s.type ≠ .plisten := by
    intro htype
    have halive := h.type
    rw [htype] at halive
    cases halive
  split at hx
  · next haccepting =>
      have htype := haccepting.resolve_right hpassive
      cases failure with
      | some text =>
          have hexcuse : (some text).isSome = true ∧ s.type = .paccept := ⟨rfl, htype⟩
          obtain ⟨haccepted, hbecomes, -⟩ := h.closeWith _ (List.append_nil sent).symm (.inr hexcuse) hx
          exact ⟨haccepted, hbecomes⟩
      | none =>
          obtain rfl := Except.ok.inj hx
          refine ⟨rfl, .alive rfl ⟨h.id, h.protocol, ?_, ?_⟩ ?_⟩
          · dsimp only [Socket.unchanged]
            rw [if_pos htype]
            rfl
          · rw [Socket.unchanged, List.append_nil]
            exact h.queue.congr rfl rfl rfl
          · dsimp only [Socket.unchanged]
            rw [if_pos htype, htype]
            rfl
  · next hother =>
      have hstarted : s.type.started = s.type := by
        cases htype : s.type with
        | paccept => exact absurd (.inl htype) hother
        | _ => rfl
      rw [hstarted]
      split at hx
      · obtain rfl := Except.ok.inj hx
        have hmoved : Alive id { s with opaqueId := opaqueId } accepted sent :=
          h.congr rfl rfl rfl rfl rfl rfl
        exact ⟨rfl, hmoved.unchanged⟩
      · obtain rfl := Except.ok.inj hx
        exact ⟨rfl, h.unchanged⟩

/-- A read closes the socket only if it fails, or if the peer has closed its side. -/
theorem Alive.forwardMessageTcp (h : Alive id s accepted sent) {result : ReadResult}
    (hx : s.forwardMessageTcp result = .ok x) :
  x.accepted = false ∧ Becomes id accepted sent s.type ((∃ text, result = .error text) ∨ result = .bytes []) x
  := by
  unfold Socket.forwardMessageTcp at hx
  cases result with
  | again =>
      obtain rfl := Except.ok.inj hx
      exact ⟨rfl, h.unchanged⟩
  | error text =>
      have hexcuse : (∃ text', ReadResult.error text = .error text') ∨ ReadResult.error text = .bytes [] :=
        .inl ⟨text, rfl⟩
      obtain ⟨haccepted, hbecomes, -⟩ := h.closeWith _ (List.append_nil sent).symm (.inr hexcuse) hx
      exact ⟨haccepted, hbecomes⟩
  | bytes data =>
      dsimp only at hx
      split at hx
      · cases hx
      · split at hx
        · next hdata =>
            subst hdata
            obtain ⟨haccepted, hbecomes, -⟩ := h.closeWith _ (List.append_nil sent).symm (.inr (Or.inr rfl)) hx
            exact ⟨haccepted, hbecomes⟩
        · split at hx
          · obtain rfl := Except.ok.inj hx
            exact ⟨rfl, h.unchanged⟩
          · obtain rfl := Except.ok.inj hx
            have hsized : ∀ size reply excuse,
                Becomes id accepted sent s.type excuse ({ s with size := size }.unchanged [] reply) := by
              intro size reply excuse
              have halive : Alive id { s with size := size } accepted sent :=
                h.congr rfl rfl rfl rfl rfl rfl
              exact halive.unchanged
            exact ⟨rfl, hsized _ _ _⟩

/-- `report_connect` closes the socket only if the connection has failed. -/
theorem Alive.reportConnect (h : Alive id s accepted sent) {failure peer : Option String}
    (hx : s.reportConnect failure peer = .ok x) :
  x.accepted = false ∧ Becomes id accepted sent .connected (failure.isSome = true) x
  := by
  unfold Socket.reportConnect at hx
  cases failure with
  | some text =>
      obtain ⟨haccepted, hbecomes, -⟩ :=
        h.closeWith _ (List.append_nil sent).symm (.inr (rfl : (some text).isSome = true)) hx
      exact ⟨haccepted, hbecomes⟩
  | none =>
      obtain rfl := Except.ok.inj hx
      have hconnected : Alive id { s with type := .connected } accepted sent :=
        ⟨h.id, h.protocol, rfl, h.queue.congr rfl rfl rfl⟩
      exact ⟨rfl, hconnected.unchanged⟩

end Functions

end Skynet
