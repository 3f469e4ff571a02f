import FWServer.Skynet.Connection

/-!
# The packages of a connection

A slot, and the connection that has been made in it under the id `me`: the requests that name the slot, the
events of the connection, and what others do in the slot when the connection is closed.  The order of all these
and the results of reads and writes are left to the environment.

Beside the slot there is a log: the packages accepted for the id, the bytes written to the file descriptor, how
often it has been closed, what had been accepted when the first request to close it was handled, whether the
connection has been made, and what has happened that ends it.
-/

namespace Skynet

/-- The types of a socket that is not connected yet. -/
def SocketType.pending : SocketType → Bool
  | .connecting => true
  | .paccept => true
  | _ => false

/-- The slot and the log. -/
structure Connection where
  socket : Socket
  accepted : List Package
  sent : List UInt8
  closes : ℕ
  settled : Option (List Package)
  linked : Bool
  failed : Bool
  hungUp : Bool
  shutdown : Bool
  aborted : Bool

namespace Connection

/-- A request, which names an id that belongs in the slot, or an event of the connection; or others use the slot. -/
inductive Step where
  | send (request : RequestSend) (priority : Priority) (results : List WriteResult)
  | close (id : ℕ) (shutdown : Bool) (opaqueId : ℕ) (results : List WriteResult)
  | start (id opaqueId : ℕ) (failure : Option String)
  | connected (failure peer : Option String)
  | readable (result : ReadResult)
  | writable (results : List WriteResult)
  | others (socket : Socket)
  deriving DecidableEq

/-- Whether there is an error among the results. -/
def failing (results : List WriteResult) : Bool :=
  results.any fun
    | .error _ => true
    | _ => false

variable (me : ℕ) (c : Connection)

/-- The slot is in the hands of the connection. -/
def Holds : Prop :=
  c.socket.id = me ∧ c.socket.type ≠ .invalid

instance : Decidable (c.Holds me) :=
  inferInstanceAs (Decidable (_ ∧ _))

/-- What a function has done; a package it has accepted is the one given.  The operating system has been asked for
the given results and no others. -/
def finish (package : Option Package) : Except Fault Outcome → Option Connection
  | .error .assertion => some { c with aborted := true }
  | .error .unfit => none
  | .ok x =>
      if x.rest ≠ [] then none
      else some { c with
        socket := x.socket
        accepted := if x.accepted then c.accepted ++ package.toList else c.accepted
        sent := c.sent ++ x.sent
        closes := if x.closed then c.closes + 1 else c.closes }

/-- `ctrl_cmd` and `socket_server_poll`.  A request that names neither the connection nor the holder of the slot does
nothing; one that names another holder is the doing of others.  The next holders have other ids. -/
def step : Step → Option Connection
  | .send request priority results =>
      if c.aborted ∨ ¬ (c.Holds me ∨ request.id = me) then none
      else
        { c with failed := c.failed || failing results }.finish (some ⟨priority, request.bytes⟩)
          (c.socket.sendSocket request priority results)
  | .close id shutdown opaqueId results =>
      if c.aborted ∨ ¬ (c.Holds me ∨ id = me) then none
      else
        { c with
          settled := if id = me then c.settled.or (some c.accepted) else c.settled
          shutdown := c.shutdown || shutdown && decide (id = me)
          failed := c.failed || failing results }.finish none (c.socket.closeSocket id shutdown opaqueId results)
  | .start id opaqueId failure =>
      if c.aborted ∨ ¬ (c.Holds me ∨ id = me) then none
      else
        { c with
          linked := c.linked || failure.isNone && decide (c.Holds me ∧ id = me ∧ c.socket.type = SocketType.paccept)
        }.finish none (c.socket.startSocket id opaqueId failure)
  | .connected failure peer =>
      if c.aborted ∨ ¬ (c.Holds me ∧ c.socket.type = .connecting) then none
      else
        { c with linked := c.linked || failure.isNone }.finish none (c.socket.reportConnect failure peer)
  | .readable result =>
      if c.aborted ∨ ¬ (c.Holds me ∧ c.socket.type ≠ .connecting) then none
      else
        { c with
          hungUp := c.hungUp || decide (result = ReadResult.bytes [])
          failed := c.failed || (match result with | .error _ => true | _ => false) }.finish none
          (c.socket.forwardMessageTcp result)
  | .writable results =>
      if c.aborted ∨ ¬ (c.Holds me ∧ c.socket.type ≠ .connecting) then none
      else
        { c with failed := c.failed || failing results }.finish none (c.socket.sendBuffer results)
  | .others socket =>
      if c.aborted ∨ c.Holds me ∨ (socket.id = me ∧ socket.type ≠ .invalid) then none
      else some { c with socket := socket }

/-- A socket that `new_fd` has made and that is being connected or has been. -/
structure Made (s : Socket) : Prop where
  id : s.id = me
  protocol : s.protocol = .tcp
  alive : s.type.alive = true
  high : s.high = []
  low : s.low = []
  wbSize : s.wbSize = 0
  warnSize : s.warnSize = 0

/-- The connection before anything has been sent. -/
def start (s : Socket) : Connection where
  socket := s
  accepted := []
  sent := []
  closes := 0
  settled := none
  linked := s.type = .connected
  failed := false
  hungUp := false
  shutdown := false
  aborted := false

/-- All runs. -/
def machine : Machine Connection Step where
  init c := ∃ s, Made me s ∧ c = start s
  step c l := c.step me l

/-! ### What holds of every run -/

/-- What ends a connection before everything has been written: an error, the peer, or a request to shut it down; or
it has not been made at all. -/
def Excused : Prop :=
  c.failed = true ∨ c.hungUp = true ∨ c.shutdown = true ∨ c.linked = false

/-- While the connection holds the slot its lists are in order; when it has lost it, it has been closed once, after
everything had been written or with an excuse; and once it has been asked to close it accepts nothing more. -/
structure Good : Prop where
  held : c.Holds me → Alive me c.socket c.accepted c.sent ∧ c.closes = 0
  gone : ¬ c.Holds me → c.closes = 1 ∧ Whole c.accepted c.sent ∧ (Complete c.accepted c.sent ∨ c.Excused)
  settled : ∀ a, c.settled = some a →
    c.accepted = a ∧ (c.aborted = false → c.Holds me → c.socket.type = .halfclose)
  linked : c.linked = true → c.aborted = false → c.Holds me → c.socket.type.pending = false

section Good

variable {me} {c} {c' : Connection}

theorem holds_of_alive {accepted : List Package} {sent : List UInt8}
    (h : Alive me c.socket accepted sent) :
  c.Holds me
  := by
  refine ⟨h.id, fun htype => ?_⟩
  have halive := h.type
  rw [htype] at halive
  cases halive

theorem good_start {s : Socket} (h : Made me s) :
  Good me (start s)
  := by
  have halive : Alive me s [] [] := ⟨h.id, h.protocol, h.alive, .of_empty h.high h.low h.wbSize⟩
  constructor
  · exact fun _ => ⟨halive, rfl⟩
  · intro hnot
    exact absurd (holds_of_alive (c := start s) halive) hnot
  · exact nofun
  · intro hlinked _ _
    have htype : s.type = .connected := of_decide_eq_true hlinked
    dsimp only [start]
    rw [htype]
    rfl

theorem failing_iff {results : List WriteResult} :
  failing results = true ↔ Failing results
  := by
  rw [failing, List.any_eq_true]
  constructor
  · rintro ⟨result, hmem, hresult⟩
    cases result with
    | error text => exact ⟨text, hmem⟩
    | _ => cases hresult
  · rintro ⟨text, htext⟩
    exact ⟨.error text, htext, rfl⟩

/-- A function that has been called on the socket of the connection keeps the log in order, if what it does is noted
there before.  `c` is the state with the notes. -/
theorem Good.of_finish {package : Option Package} {result : Except Fault Outcome}
    (hfinish : c.finish package result = some c') (hheld : Alive me c.socket c.accepted c.sent) (hcloses : c.closes = 0)
    (haborted : ∀ a, c.settled = some a → c.accepted = a)
    (hok : ∀ x, result = .ok x → ∃ type excuse,
      Becomes me (if x.accepted then c.accepted ++ package.toList else c.accepted) c.sent type excuse x ∧
        (excuse → c.Excused) ∧ (∀ a, c.settled = some a → x.accepted = false ∧ type = .halfclose) ∧
        (c.linked = true → type.pending = false)) :
  Good me c'
  := by
  cases result with
  | error fault =>
      cases fault with
      | unfit => cases hfinish
      | assertion =>
          obtain rfl := Option.some.inj hfinish
          have hholds := holds_of_alive hheld
          exact ⟨fun _ => ⟨hheld, hcloses⟩, fun hnot => absurd hholds hnot, fun a ha => ⟨haborted a ha, nofun⟩, nofun⟩
  | ok x =>
      rw [finish] at hfinish
      split at hfinish
      · cases hfinish
      · obtain rfl := Option.some.inj hfinish
        obtain ⟨type, excuse, hbecomes, hexcuse, hsettled, hlinked⟩ := hok x rfl
        cases hbecomes with
        | alive hclosed halive htype =>
            constructor
            · intro _
              refine ⟨halive, ?_⟩
              dsimp only
              rw [hclosed, if_neg nofun]
              exact hcloses
            · intro hnot
              exact absurd ⟨halive.id, fun h => by have := halive.type; rw [h] at this; cases this⟩ hnot
            · intro a ha
              obtain ⟨haccepted, rfl⟩ := hsettled a ha
              dsimp only
              rw [haccepted, if_neg nofun]
              exact ⟨haborted a ha, fun _ _ => htype⟩
            · intro hl _ _
              dsimp only
              rw [htype]
              exact hlinked hl
        | gone hclosed hinvalid hwhole hcomplete =>
            constructor
            · intro hholds
              exact absurd hinvalid hholds.2
            · intro _
              refine ⟨?_, hwhole, hcomplete.imp_right hexcuse⟩
              dsimp only
              rw [hclosed, if_pos rfl, hcloses]
            · intro a ha
              obtain ⟨haccepted, -⟩ := hsettled a ha
              dsimp only
              rw [haccepted, if_neg nofun]
              exact ⟨haborted a ha, fun _ hholds => absurd hinvalid hholds.2⟩
            · exact fun _ _ hholds => absurd hinvalid hholds.2

/-- Notes do not matter to the slot. -/
theorem Good.noted (h : Good me c) {n : Connection} (hsocket : n.socket = c.socket)
    (haccepted : n.accepted = c.accepted) (hsent : n.sent = c.sent) (hcloses : n.closes = c.closes)
    (hexcused : c.Excused → n.Excused)
    (hsettled : ∀ a, n.settled = some a →
      c.accepted = a ∧ (n.aborted = false → c.Holds me → c.socket.type = .halfclose))
    (hlinked : n.linked = true → n.aborted = false → c.Holds me → c.socket.type.pending = false) :
  Good me n
  := by
  have hholds : n.Holds me ↔ c.Holds me := by
    rw [Holds, Holds, hsocket]
  constructor
  · rw [hholds, hsocket, haccepted, hsent, hcloses]
    exact h.held
  · rw [hholds, haccepted, hsent, hcloses]
    intro hnot
    obtain ⟨hone, hwhole, hcomplete⟩ := h.gone hnot
    exact ⟨hone, hwhole, hcomplete.imp_right hexcused⟩
  · rw [hholds, haccepted, hsocket]
    exact hsettled
  · rw [hholds, hsocket]
    exact hlinked

theorem finish_unchanged {package : Option Package} {results : List WriteResult} {reply : Reply}
    (hfinish : c.finish package (.ok (c.socket.unchanged results reply)) = some c') :
  c' = c
  := by
  rw [finish] at hfinish
  split at hfinish
  · cases hfinish
  · obtain rfl := Option.some.inj hfinish
    simp [Socket.unchanged]

/-- The slot is not the one the request names. -/
theorem stale_of_not (h : Good me c) {id : ℕ} (hallowed : c.Holds me ∨ id = me)
    (hnot : ¬ (c.Holds me ∧ id = me)) :
  c.socket.type = .invalid ∨ c.socket.id ≠ id
  := by
  rcases hallowed with hholds | rfl
  · right
    rw [hholds.1]
    exact fun hid => hnot ⟨hholds, hid.symm⟩
  · by_contra hother
    push Not at hother
    exact hnot ⟨⟨hother.2, hother.1⟩, rfl⟩

/-- What happens to a connection happens before it is aborted, and only when it may. -/
theorem allowed_of_step {p : Prop} [Decidable p] {x : Option Connection}
    (h : (if c.aborted ∨ ¬ p then none else x) = some c') :
  c.aborted = false ∧ p ∧ x = some c'
  := by
  obtain ⟨hguard, hx⟩ := Option.ite_none_left_eq_some.mp h
  obtain ⟨haborted, hallowed⟩ := not_or.mp hguard
  exact ⟨Bool.eq_false_iff.mpr haborted, not_not.mp hallowed, hx⟩

theorem Good.send (h : Good me c) {request : RequestSend} {priority : Priority} {results : List WriteResult}
    (hstep : c.step me (.send request priority results) = some c') :
  Good me c'
  := by
  obtain ⟨haborted, hallowed, hstep⟩ := allowed_of_step hstep
  by_cases hours : c.Holds me ∧ request.id = me
  · obtain ⟨halive, hcloses⟩ := h.held hours.1
    refine Good.of_finish hstep halive hcloses (fun a ha => (h.settled a ha).1) ?_
    intro x hx
    obtain ⟨haccepted, hbecomes⟩ := halive.sendSocket hx
    refine ⟨_, _, hbecomes, ?_, ?_, ?_⟩
    · intro hfailing
      left
      dsimp only
      rw [failing_iff.mpr hfailing, Bool.or_true]
    · intro a ha
      have htype := (h.settled a ha).2 haborted hours.1
      exact ⟨Bool.eq_false_iff.mpr fun hx => haccepted hx htype, htype⟩
    · exact fun hlinked => h.linked hlinked haborted hours.1
  · rw [Socket.sendSocket_stale (stale_of_not h hallowed hours)] at hstep
    rw [finish_unchanged hstep]
    refine h.noted rfl rfl rfl rfl ?_ h.settled h.linked
    rintro (hfailed | hother)
    · left
      dsimp only
      rw [hfailed, Bool.true_or]
    · exact .inr hother

theorem Good.close (h : Good me c) {id opaqueId : ℕ} {shutdown : Bool} {results : List WriteResult}
    (hstep : c.step me (.close id shutdown opaqueId results) = some c') :
  Good me c'
  := by
  obtain ⟨haborted, hallowed, hstep⟩ := allowed_of_step hstep
  have hsettled : ∀ a, (if id = me then c.settled.or (some c.accepted) else c.settled) = some a →
      c.accepted = a := by
    intro a ha
    split at ha
    · rcases Option.or_eq_some_iff.mp ha with ha | ⟨-, ha⟩
      · exact (h.settled a ha).1
      · exact Option.some.inj ha
    · exact (h.settled a ha).1
  by_cases hours : c.Holds me ∧ id = me
  · obtain ⟨halive, hcloses⟩ := h.held hours.1
    obtain ⟨hholds, rfl⟩ := hours
    refine Good.of_finish hstep halive hcloses hsettled ?_
    intro x hx
    obtain ⟨hrefused, hbecomes⟩ := halive.closeSocket hx
    rw [hrefused, if_neg nofun]
    refine ⟨_, _, hbecomes, ?_, fun _ _ => ⟨rfl, rfl⟩, fun _ => rfl⟩
    rintro (hfailing | rfl)
    · left
      dsimp only
      rw [failing_iff.mpr hfailing, Bool.or_true]
    · right
      right
      left
      simp
  · have hstale := stale_of_not h hallowed hours
    rw [Socket.closeSocket_stale hstale] at hstep
    rw [finish_unchanged hstep]
    refine h.noted rfl rfl rfl rfl ?_ ?_ h.linked
    · rintro (hfailed | hhung | hshutdown | hlinked)
      · left
        dsimp only
        rw [hfailed, Bool.true_or]
      · exact .inr (.inl hhung)
      · right
        right
        left
        dsimp only
        rw [hshutdown, Bool.true_or]
      · exact .inr (.inr (.inr hlinked))
    · intro a ha
      refine ⟨hsettled a ha, fun hok hholds => ?_⟩
      dsimp only at ha
      rw [if_neg fun hid => hours ⟨hholds, hid⟩] at ha
      exact (h.settled a ha).2 hok hholds

theorem Good.start (h : Good me c) {id opaqueId : ℕ} {failure : Option String}
    (hstep : c.step me (.start id opaqueId failure) = some c') :
  Good me c'
  := by
  obtain ⟨haborted, hallowed, hstep⟩ := allowed_of_step hstep
  by_cases hours : c.Holds me ∧ id = me
  · obtain ⟨halive, hcloses⟩ := h.held hours.1
    obtain ⟨hholds, rfl⟩ := hours
    refine Good.of_finish hstep halive hcloses (fun a ha => (h.settled a ha).1) ?_
    intro x hx
    obtain ⟨hrefused, hbecomes⟩ := halive.startSocket hx
    rw [hrefused, if_neg nofun]
    refine ⟨_, _, hbecomes, ?_, ?_, ?_⟩
    · rintro ⟨hfailure, htype⟩
      -- a socket that has not been started has not been linked
      have hlinked : c.linked = false := by
        by_contra hlinked
        have hpending := h.linked (Bool.not_eq_false _ ▸ hlinked) haborted hholds
        rw [htype] at hpending
        cases hpending
      right
      right
      right
      dsimp only
      rw [hlinked, Option.isNone_eq_false_iff.mpr hfailure]
      rfl
    · intro a ha
      have htype := (h.settled a ha).2 haborted hholds
      rw [htype]
      exact ⟨rfl, rfl⟩
    · intro hlinked
      rcases Bool.or_eq_true_iff.mp hlinked with hlinked | hstarted
      · have hpending := h.linked hlinked haborted hholds
        cases htype : c.socket.type with
        | paccept => rfl
        | _ =>
            rw [htype] at hpending
            exact hpending
      · obtain ⟨-, hstarted⟩ := Bool.and_eq_true_iff.mp hstarted
        rw [(of_decide_eq_true hstarted).2.2]
        rfl
  · rw [Socket.startSocket_stale (stale_of_not h hallowed hours)] at hstep
    rw [finish_unchanged hstep]
    have hsame : (c.linked || failure.isNone && decide (c.Holds me ∧ id = me ∧ c.socket.type = .paccept))
        = c.linked := by
      rw [decide_eq_false fun hstarted => hours ⟨hstarted.1, hstarted.2.1⟩, Bool.and_false, Bool.or_false]
    refine h.noted rfl rfl rfl rfl ?_ h.settled ?_
    · rw [hsame]
      exact fun hexcused => hexcused
    · rw [hsame]
      exact h.linked

/-- An event of the connection: the function called keeps the type of a socket that is half closed. -/
theorem Good.event (h : Good me c) {n : Connection} {result : Except Fault Outcome} (haborted : c.aborted = false)
    (hsocket : n.socket = c.socket) (haccepted : n.accepted = c.accepted) (hsent : n.sent = c.sent)
    (hcloses : n.closes = c.closes) (hsettled : n.settled = c.settled) (hholds : c.Holds me)
    (hok : ∀ x, result = .ok x → ∃ type excuse, x.accepted = false ∧
      Becomes me c.accepted c.sent type excuse x ∧ (excuse → n.Excused) ∧
        (c.socket.type = .halfclose → type = .halfclose) ∧ (n.linked = true → type.pending = false))
    (hfinish : n.finish none result = some c') :
  Good me c'
  := by
  obtain ⟨halive, hzero⟩ := h.held hholds
  refine Good.of_finish hfinish ?_ (hcloses.trans hzero) ?_ ?_
  · rw [hsocket, haccepted, hsent]
    exact halive
  · rw [hsettled, haccepted]
    exact fun a ha => (h.settled a ha).1
  · intro x hx
    obtain ⟨type, excuse, hrefused, hbecomes, hexcused, htype, hlinked⟩ := hok x hx
    rw [hrefused, if_neg nofun, haccepted, hsent, hsettled]
    refine ⟨type, excuse, hbecomes, hexcused, fun a ha => ⟨rfl, ?_⟩, hlinked⟩
    exact htype ((h.settled a ha).2 haborted hholds)

/-- Every step keeps the log in order. -/
theorem Good.step (h : Good me c) {l : Step} (hstep : c.step me l = some c') :
  Good me c'
  := by
  cases l with
  | send request priority results => exact h.send hstep
  | close id shutdown opaqueId results => exact h.close hstep
  | start id opaqueId failure => exact h.start hstep
  | connected failure peer =>
      obtain ⟨haborted, ⟨hholds, htype⟩, hstep⟩ := allowed_of_step hstep
      refine h.event haborted ?_ ?_ ?_ ?_ ?_ hholds ?_ hstep
      · rfl
      · rfl
      · rfl
      · rfl
      · rfl
      · intro x hx
        obtain ⟨hrefused, hbecomes⟩ := (h.held hholds).1.reportConnect hx
        refine ⟨_, _, hrefused, hbecomes, ?_, ?_, fun _ => rfl⟩
        · intro hfailure
          have hlinked : c.linked = false := by
            by_contra hlinked
            have hpending := h.linked (Bool.not_eq_false _ ▸ hlinked) haborted hholds
            rw [htype] at hpending
            cases hpending
          right
          right
          right
          dsimp only
          rw [hlinked, Option.isNone_eq_false_iff.mpr hfailure]
          rfl
        · rw [htype]
          exact nofun
  | readable result =>
      obtain ⟨haborted, ⟨hholds, -⟩, hstep⟩ := allowed_of_step hstep
      refine h.event haborted ?_ ?_ ?_ ?_ ?_ hholds ?_ hstep
      · rfl
      · rfl
      · rfl
      · rfl
      · rfl
      · intro x hx
        obtain ⟨hrefused, hbecomes⟩ := (h.held hholds).1.forwardMessageTcp hx
        refine ⟨_, _, hrefused, hbecomes, ?_, id, fun hlinked => h.linked hlinked haborted hholds⟩
        rintro (⟨text, rfl⟩ | rfl)
        · left
          exact Bool.or_true _
        · right
          left
          exact Bool.or_true _
  | writable results =>
      obtain ⟨haborted, ⟨hholds, -⟩, hstep⟩ := allowed_of_step hstep
      refine h.event haborted ?_ ?_ ?_ ?_ ?_ hholds ?_ hstep
      · rfl
      · rfl
      · rfl
      · rfl
      · rfl
      · intro x hx
        obtain ⟨hrefused, hbecomes, -⟩ := (h.held hholds).1.sendBuffer hx
        refine ⟨_, _, hrefused, hbecomes, ?_, id, fun hlinked => h.linked hlinked haborted hholds⟩
        intro hfailing
        left
        dsimp only
        rw [failing_iff.mpr hfailing, Bool.or_true]
  | others socket =>
      obtain ⟨hguard, hstep⟩ := Option.ite_none_left_eq_some.mp hstep
      push Not at hguard
      obtain ⟨-, hnot, hother⟩ := hguard
      obtain rfl := Option.some.inj hstep
      have hnot' : ¬ Holds me { c with socket := socket } := fun hholds => hholds.2 (hother hholds.1)
      constructor
      · exact fun hholds => absurd hholds hnot'
      · exact fun _ => h.gone hnot
      · exact fun a ha => ⟨(h.settled a ha).1, fun _ hholds => absurd hholds hnot'⟩
      · exact fun _ _ hholds => absurd hholds hnot'

end Good

/-- Every state that is reached is in order. -/
theorem good_of_reachable {me : ℕ} {c : Connection} (h : (machine me).Reachable c) :
  Good me c
  := by
  refine Machine.invariant ?_ ?_ h
  · rintro _ ⟨s, hs, rfl⟩
    exact good_start hs
  · exact fun c l c' hc _ hstep => hc.step hstep

/-- No package is torn: what has been written is a beginning of whole packages one after the other, of each priority
in the order in which they were accepted, and `wb_size` counts the accepted bytes still to be written. -/
theorem packages_whole {me : ℕ} {c : Connection} (h : (machine me).Reachable c) :
  Whole c.accepted c.sent ∧
    (c.Holds me → c.socket.wbSize + c.sent.length = (bytesOf c.accepted).length)
  := by
  have hgood := good_of_reachable h
  constructor
  · by_cases hholds : c.Holds me
    · exact (hgood.held hholds).1.queue.whole
    · exact (hgood.gone hholds).2.1
  · intro hholds
    exact (hgood.held hholds).1.queue.length

/-- A socket with the id 1 that is connected. -/
def fresh : Socket where
  opaqueId := 7
  high := []
  low := []
  wbSize := 0
  fd := 9
  id := 1
  protocol := .tcp
  type := .connected
  warnSize := 0
  size := MIN_READ_BUFFER

theorem made_fresh :
  Made 1 fresh
  := ⟨rfl, rfl, rfl, rfl, rfl, rfl, rfl⟩

theorem reachable_fresh :
  (machine 1).Reachable (start fresh)
  := .init ⟨fresh, made_fresh, rfl⟩

/-- A package of low priority is written in part, and goes before one of high priority. -/
theorem packages_whole_partly :
  ∃ c, (machine 1).exec (start fresh)
      [.send ⟨1, 100, .raw [1, 2, 3]⟩ .low [.count 1], .send ⟨1, 200, .raw [4]⟩ .low [],
        .send ⟨1, 300, .raw [5]⟩ .high [], .writable [.count 2, .intr, .again]] = some c ∧
    c.sent = [1, 2, 3] ∧ c.socket.wbSize = 2 ∧ Whole c.accepted c.sent ∧
    (c.Holds 1 → c.socket.wbSize + c.sent.length = (bytesOf c.accepted).length)
  := by
  have hrun : ((machine 1).exec (start fresh)
      [.send ⟨1, 100, .raw [1, 2, 3]⟩ .low [.count 1], .send ⟨1, 200, .raw [4]⟩ .low [],
        .send ⟨1, 300, .raw [5]⟩ .high [], .writable [.count 2, .intr, .again]]).map
      (fun c => (c.sent, c.socket.wbSize)) = some ([1, 2, 3], 2) := by
    decide +kernel
  obtain ⟨c, hc, hvalues⟩ := Option.map_eq_some_iff.mp hrun
  obtain ⟨hsent, hsize⟩ := Prod.mk.inj hvalues
  exact ⟨c, hc, hsent, hsize, packages_whole (reachable_fresh.exec _ hc)⟩

/-- After a request to close it the connection accepts nothing; it is closed once, and when it had been made, only
after everything accepted has been written, or after a failed read or write, the end of the stream, or a request to
shut it down. -/
theorem closed_gracefully {me : ℕ} {c : Connection} (h : (machine me).Reachable c) :
  (∀ a, c.settled = some a → c.accepted = a) ∧ (c.closes = if c.Holds me then 0 else 1) ∧
    (c.linked = true → 0 < c.closes →
      Complete c.accepted c.sent ∨ c.failed = true ∨ c.hungUp = true ∨ c.shutdown = true)
  := by
  have hgood := good_of_reachable h
  refine ⟨fun a ha => (hgood.settled a ha).1, ?_, ?_⟩
  · split
    · next hholds => exact (hgood.held hholds).2
    · next hnot => exact (hgood.gone hnot).1
  · intro hlinked hcloses
    have hnot : ¬ c.Holds me := by
      intro hholds
      rw [(hgood.held hholds).2] at hcloses
      cases hcloses
    obtain ⟨-, -, hcomplete⟩ := hgood.gone hnot
    apply hcomplete.imp_right
    rintro (hfailed | hhung | hshutdown | hunlinked)
    · exact .inl hfailed
    · exact .inr (.inl hhung)
    · exact .inr (.inr hshutdown)
    · rw [hlinked] at hunlinked
      cases hunlinked

/-- A connection is half closed with two bytes to be written, refuses a package, is closed after the bytes, and the
slot goes to another socket. -/
theorem closed_gracefully_halfclose :
  ∃ c, (machine 1).exec (start fresh)
      [.send ⟨1, 100, .raw [1, 2, 3]⟩ .high [.count 1], .close 1 false 7 [.again], .send ⟨1, 200, .raw [4]⟩ .high [],
        .writable [.count 2], .others { fresh with id := 65537 }, .send ⟨1, 300, .raw [5]⟩ .low []] = some c ∧
    c.sent = [1, 2, 3] ∧ c.closes = 1 ∧ (∀ a, c.settled = some a → c.accepted = a) ∧
    (c.closes = if c.Holds 1 then 0 else 1) ∧
    (c.linked = true → 0 < c.closes →
      Complete c.accepted c.sent ∨ c.failed = true ∨ c.hungUp = true ∨ c.shutdown = true)
  := by
  have hrun : ((machine 1).exec (start fresh)
      [.send ⟨1, 100, .raw [1, 2, 3]⟩ .high [.count 1], .close 1 false 7 [.again], .send ⟨1, 200, .raw [4]⟩ .high [],
        .writable [.count 2], .others { fresh with id := 65537 }, .send ⟨1, 300, .raw [5]⟩ .low []]).map
      (fun c => (c.sent, c.closes)) = some ([1, 2, 3], 1) := by
    decide +kernel
  obtain ⟨c, hc, hvalues⟩ := Option.map_eq_some_iff.mp hrun
  obtain ⟨hsent, hcloses⟩ := Prod.mk.inj hvalues
  exact ⟨c, hc, hsent, hcloses, closed_gracefully (reachable_fresh.exec _ hc)⟩

end Connection

end Skynet
