import FWServer.Skynet.HarborFrees

/-!
# Harbors that are down

When a peer breaks the protocol, `close_harbor` marks its slave as down, but leaves the socket in it.  The tests for a
slave that is down come after those for a slave without a socket, and are never made.  So a message for a harbor that
is down is written to the socket that has been closed, and its source is not told (`not_reported`); only the buffers
are freed as they should be (`Good.step`).
-/

namespace Skynet

namespace Harbor

variable {β : Type} {data : β → List UInt8} {found : ℕ → Bool} {h h' : Harbor β} {id i : ℕ} {m : Message β}

/-! ### Messages for a harbor that is down -/

/-- Another harbor is down. -/
def IsDown (h : Harbor β) (id : ℕ) : Prop :=
  id ≠ h.id ∧ (h.s id).status = .DOWN

instance (h : Harbor β) (id : ℕ) : Decidable (h.IsDown id) :=
  inferInstanceAs (Decidable (_ ∧ _))

/-- The harbor that the messages go to which are handled with a message for `mainloop`. -/
def target (h : Harbor β) : Message β → Option ℕ
  | .toHandle _ destination _ _ _ => some (destination >>> HANDLE_REMOTE_SHIFT)
  | .toName _ name _ _ _ =>
      if (h.search name).value = 0 then none else some ((h.search name).value >>> HANDLE_REMOTE_SHIFT)
  | .N name source =>
      if name.length = 0 ∨ name.length ≥ GLOBALNAME_LENGTH then none else some (source >>> HANDLE_REMOTE_SHIFT)
  | _ => none

/-- These messages, by source and buffer: the one that is handed over, or those that have waited for a name. -/
def messages (h : Harbor β) : Message β → List (ℕ × β)
  | .toHandle source _ _ _ buffer => [(source, buffer)]
  | .toName source _ _ _ buffer => [(source, buffer)]
  | .N name _ => ((h.search name).queue.getD []).map fun m => (m.header.source, m.buffer)
  | _ => []

/-- Those of them that are for a harbor that is down. -/
def forDown (h : Harbor β) (m : Message β) : List (ℕ × β) :=
  match h.target m with
  | none => []
  | some id => if h.IsDown id then h.messages m else []

/-- What has been put out with messages for a harbor that is down, which had been connected by the socket `fd`. -/
structure Handled (β : Type) where
  fd : ℕ
  messages : List (ℕ × β)
  out : List (Output β)

/-- An error is reported to a source. -/
def Output.isError (source : ℕ) : Output β → Bool
  | .send m => m.type = PTYPE_ERROR ∧ m.destination = source
  | _ => false

/-- The socket that is written to. -/
def Output.socket : Output β → Option ℕ
  | .remote fd _ _ => some fd
  | .handshake fd _ => some fd
  | _ => none

/-- Each source gets one error for each of its messages, and nothing is written to the socket. -/
structure Handled.Reported (e : Handled β) : Prop where
  errors : ∀ source, e.out.countP (Output.isError source) = e.messages.countP fun m => m.1 = source
  silent : ∀ o ∈ e.out, o.socket ≠ some e.fd

/-- The buffers that were in the queue of a slave when it went down. -/
def wentDown (h h' : Harbor β) : List β :=
  (List.range REMOTE_MAX).flatMap fun i =>
    if (h.s i).status ≠ .DOWN ∧ (h'.s i).status = .DOWN then buffers (h.s i).queue else []

/-! ### What is done with them -/

/-- The messages for a harbor that is down, when there are any. -/
theorem forDown_cases (hne : h.forDown m ≠ []) :
  ∃ id, h.target m = some id ∧ h.IsDown id ∧ h.forDown m = h.messages m
  := by
  rw [forDown] at hne ⊢
  cases htarget : h.target m with
  | none =>
      rw [htarget] at hne
      exact absurd rfl hne
  | some id =>
      rw [htarget] at hne
      rcases Decidable.em (h.IsDown id) with hdown | hup
      · exact ⟨id, rfl, hdown, if_pos hdown⟩
      · exact absurd (if_neg hup) hne

/-- All that is put out is written to slaves. -/
def SentRemote (data : β → List UInt8) (out : List (Output β)) : Prop :=
  ∀ o ∈ out, ∃ fd buffer cookie, o ∈ sendRemote data fd buffer cookie

/-- As the slave has a socket, it is not seen that it is down. -/
theorem remoteSendHandle_of_down {source destination : ℕ} {type : UInt8} {session : Session} {buffer : β}
    (hdown : h.IsDown (destination >>> HANDLE_REMOTE_SHIFT))
    (hfd : (h.s (destination >>> HANDLE_REMOTE_SHIFT)).fd ≠ 0) :
  remoteSendHandleFreed h destination buffer = [buffer] ∧
    SentRemote data (remoteSendHandle data h source destination type session buffer).1
  := by
  obtain ⟨hid, hstatus⟩ := hdown
  have hconnected : ¬ ((h.s (destination >>> HANDLE_REMOTE_SHIFT)).fd = 0 ∨
      (h.s (destination >>> HANDLE_REMOTE_SHIFT)).status = .HANDSHAKE) := by
    rintro (hzero | hhandshake)
    · apply hfd hzero
    · cases hstatus.symm.trans hhandshake
  rw [remoteSendHandleFreed, remoteSendHandle]
  dsimp only
  rw [if_neg hid, if_neg hid, if_neg hconnected, if_neg hconnected]
  use rfl
  intro o ho
  exact ⟨_, _, _, ho⟩

theorem dispatchNameQueue_of_connected {node : KeyValue β} (hfd : (h.s (node.value >>> HANDLE_REMOTE_SHIFT)).fd ≠ 0) :
  dispatchNameQueueFreed h node = buffers node.queue ∧ SentRemote data (dispatchNameQueue data h node).1
  := by
  rw [dispatchNameQueueFreed, dispatchNameQueue]
  dsimp only
  rw [if_neg hfd, if_neg hfd]
  use rfl
  intro o ho
  obtain ⟨m, -, ho⟩ := List.mem_flatMap.mp ho
  exact ⟨_, _, _, ho⟩

/-- The messages for a harbor that is down are written to its socket, and their buffers are freed. -/
theorem mainloop_forDown (hs : h.Sound) (hne : h.forDown m ≠ []) :
  mainloopFreed data found h m = (h.forDown m).map Prod.snd ∧ SentRemote data (mainloop data found h m).1
  := by
  obtain ⟨id, htarget, hdown, hmessages⟩ := forDown_cases hne
  have hfd : (h.s id).fd ≠ 0 := by
    apply (hs id).connected
    rw [hdown.2]
    rintro ⟨⟩
  rw [hmessages]
  cases m with
  | data fd buffer => cases htarget
  | closed fd => cases htarget
  | SA connects fd id => cases htarget
  | toHandle source destination type session buffer =>
      obtain rfl := Option.some.inj htarget
      apply remoteSendHandle_of_down hdown hfd
  | toName source name type session buffer =>
      rw [target] at htarget
      split at htarget
      · cases htarget
      · next hvalue =>
          obtain rfl := Option.some.inj htarget
          rw [mainloopFreed, mainloop, remoteSendNameFreed, remoteSendName]
          dsimp only
          rw [if_neg hvalue, if_neg hvalue]
          exact remoteSendHandle_of_down (h := h.setName name (h.search name)) hdown hfd
  | N name source =>
      rw [target] at htarget
      split at htarget
      · cases htarget
      · next hname =>
          obtain rfl := Option.some.inj htarget
          rw [mainloopFreed, mainloop, commandNFreed, commandN, if_neg hname, if_neg hname]
          rw [updateNameFreed, updateName, messages, List.map_map]
          dsimp only
          cases hqueue : (h.search name).queue with
          | none =>
              use rfl
              rintro o ⟨⟩
          | some queue => exact dispatchNameQueue_of_connected hfd

/-- The buffers of the messages for a harbor that is down are freed. -/
theorem freed_of_forDown (hs : h.Sound) {b : β} (hb : b ∈ (h.forDown m).map Prod.snd) :
  b ∈ mainloopFreed data found h m
  := by
  rw [(mainloop_forDown hs _).1]
  · apply hb
  · intro hnil
    rw [hnil] at hb
    cases hb

theorem isError_sendRemote {source fd : ℕ} {buffer : β} {cookie : Header} {o : Output β}
    (ho : o ∈ sendRemote data fd buffer cookie) :
  o.isError source = false
  := by
  rw [sendRemote] at ho
  split at ho
  · cases ho
  · obtain rfl := List.mem_singleton.mp ho
    rfl

/-- So they are not reported. -/
theorem not_reported (hs : h.Sound) (hne : h.forDown m ≠ []) (fd : ℕ) :
  ¬ Handled.Reported ⟨fd, h.forDown m, (mainloop data found h m).1⟩
  := by
  intro hreported
  obtain ⟨⟨source, b⟩, hb⟩ := List.exists_mem_of_ne_nil _ hne
  have herrors := hreported.errors source
  rw [List.countP_eq_zero.mpr] at herrors
  · have hpos : 0 < (h.forDown m).countP fun m => m.1 = source :=
      List.countP_pos_iff.mpr ⟨(source, b), hb, decide_eq_true rfl⟩
    rw [← herrors] at hpos
    apply absurd hpos (Nat.lt_irrefl 0)
  · intro o ho
    obtain ⟨fd, buffer, cookie, ho⟩ := (mainloop_forDown hs hne).2 o ho
    rw [isError_sendRemote ho]
    decide

/-! ### Going down -/

theorem setSlave_status {s : Slave β} (hs : s.status = (h.s id).status) :
  ((h.setSlave id s).s i).status = (h.s i).status
  := by
  rcases eq_or_ne i id with rfl | hi
  · rw [setSlave_self, hs]
  · rw [setSlave_of_ne hi]

theorem dispatchNameQueue_status (node : KeyValue β) :
  ((dispatchNameQueue data h node).2.s i).status = (h.s i).status
  := by
  rw [dispatchNameQueue]
  dsimp only
  split_ifs
  · rfl
  · exact setSlave_status (by rfl)
  · exact setSlave_status (by rfl)
  · rfl

theorem remoteSendHandle_status (source destination : ℕ) (type : UInt8) (session : Session) (buffer : β) :
  ((remoteSendHandle data h source destination type session buffer).2.s i).status = (h.s i).status
  := by
  rw [remoteSendHandle]
  dsimp only
  split_ifs
  · rfl
  · rfl
  · exact setSlave_status (by rfl)
  · rfl

theorem commandN_status (name : Name) (source : ℕ) :
  ((commandN data h name source).2.s i).status = (h.s i).status
  := by
  rw [commandN]
  split_ifs
  · rfl
  · rw [updateName]
    dsimp only
    cases (h.search name).queue with
    | none => rfl
    | some queue => apply dispatchNameQueue_status

/-- A slave is up when it has been connected. -/
theorem commandSA_down {connects : Bool} {fd : ℕ} (hdown : ((commandSA data h connects fd id).2.s i).status = .DOWN) :
  (h.s i).status = .DOWN
  := by
  rw [commandSA] at hdown
  dsimp only at hdown
  rcases eq_or_ne i id with rfl | hi
  · split_ifs at hdown
    · apply hdown
    · apply hdown
    · rw [setSlave_self] at hdown
      cases hdown
    · rw [dispatchQueue_eq, setSlave_self, setSlave_self] at hdown
      cases hdown
  · split_ifs at hdown
    · apply hdown
    · apply hdown
    · rwa [setSlave_of_ne hi] at hdown
    · rwa [dispatchQueue_eq, setSlave_of_ne hi, setSlave_of_ne hi] at hdown

/-- A slave goes down as its queue is freed. -/
theorem pushSocketData_down {fd : ℕ} {buffer : List UInt8}
    (hdown : ((pushSocketData data found h fd buffer).2.s i).status = .DOWN) :
  (h.s i).status = .DOWN ∨ ∀ b ∈ buffers (h.s i).queue, b ∈ pushSocketDataFreed data found h fd buffer
  := by
  rw [pushSocketData] at hdown
  rw [pushSocketDataFreed]
  cases hslave : h.slaveOf fd with
  | none =>
      rw [hslave] at hdown
      exact .inl hdown
  | some id =>
      rw [hslave] at hdown
      have hfrees := Frees.pushLoop data found h id (buffer.length + 2) buffer
      rcases eq_or_ne i id with rfl | hi
      · apply (hfrees.down hdown).imp_right
        intro hempty b hb
        rw [hfrees.queue, hempty, List.append_nil] at hb
        apply hb
      · dsimp only at hdown
        rw [hfrees.slave i hi] at hdown
        exact .inl hdown

/-- This is the only way. -/
theorem down_or_freed (hdown : ((mainloop data found h m).2.s i).status = .DOWN) :
  (h.s i).status = .DOWN ∨ ∀ b ∈ buffers (h.s i).queue, b ∈ mainloopFreed data found h m
  := by
  cases m with
  | data fd buffer => apply pushSocketData_down hdown
  | closed fd =>
      left
      rw [mainloop] at hdown
      cases hslave : h.slaveOf fd <;> rw [hslave] at hdown <;> apply hdown
  | N name source =>
      left
      rwa [mainloop, commandN_status] at hdown
  | SA connects fd id =>
      left
      apply commandSA_down hdown
  | toName source name type session buffer =>
      left
      rw [mainloop, remoteSendName] at hdown
      dsimp only at hdown
      split_ifs at hdown
      · apply hdown
      · rwa [remoteSendHandle_status] at hdown
  | toHandle source destination type session buffer =>
      left
      rwa [mainloop, remoteSendHandle_status] at hdown

/-- The buffers in the queue of a slave that goes down are freed. -/
theorem freed_of_wentDown {b : β} (hb : b ∈ wentDown h (mainloop data found h m).2) :
  b ∈ mainloopFreed data found h m
  := by
  obtain ⟨i, -, hb⟩ := List.mem_flatMap.mp hb
  split at hb
  · next hwent =>
      rcases down_or_freed hwent.2 with hdown | hfreed
      · exact absurd hdown hwent.1
      · apply hfreed b hb
  · cases hb

/-! ### Runs -/

/-- The harbor; the buffers of the messages that have been handed over, and those that have been freed; the buffers of
the messages that were for a harbor that was down, or queued for one when it went down; what has been put out with the
former. -/
structure Account (β : Type) where
  harbor : Harbor β
  taken : List β
  freed : List β
  lost : List β
  handled : List (Handled β)

/-- A harbor of which nothing has been asked yet. -/
def Account.start (h : Harbor β) : Account β where
  harbor := h
  taken := []
  freed := []
  lost := []
  handled := []

/-- No message is for a harbor that is down. -/
def NoneForDown (a : Account β) (m : Message β) : Prop :=
  a.harbor.forDown m = []

/-- What holds in every state of a run. -/
structure Good (a : Account β) : Prop where
  sound : a.harbor.Sound
  ledger : Ledger a.taken a.freed a.harbor.held
  lost : ∀ b ∈ a.lost, b ∈ a.freed

theorem Good.start (hstart : Started h) :
  Good (.start h)
  where
  sound id := by
    obtain ⟨hfd, hqueue, hstatus, hread⟩ := hstart.slave id
    exact ⟨iff_of_true hfd hstatus, fun _ => hread, fun _ => hqueue⟩
  ledger := by
    apply Ledger.empty
    rintro (name | id)
    · change buffers (h.search name).queue = []
      rw [search, hstart.map name]
      rfl
    · change buffers (h.s id).queue = []
      rw [(hstart.slave id).2.1]
      rfl
  lost := by
    rintro b ⟨⟩

variable [DecidableEq β]

/-- What a message does.  Each message comes with a buffer of its own. -/
def Account.step (data : β → List UInt8) (found : ℕ → Bool) (a : Account β) (m : Message β) : Option (Account β) :=
  if ∀ b ∈ m.buffers, b ∉ a.taken then
    let (out, h) := mainloop data found a.harbor m
    let lost := a.harbor.forDown m
    some {
      harbor := h
      taken := a.taken ++ m.buffers
      freed := a.freed ++ mainloopFreed data found a.harbor m
      lost := a.lost ++ (lost.map Prod.snd ++ wentDown a.harbor h)
      handled := if lost = [] then a.handled
        else a.handled ++ [⟨(a.harbor.s ((a.harbor.target m).getD 0)).fd, lost, out⟩] }
  else none

/-- The runs of a harbor. -/
def accounts (data : β → List UInt8) (found : ℕ → Bool) : Machine (Account β) (Message β) where
  init a := ∃ h, Started h ∧ a = .start h
  step := Account.step data found

/-- The buffers of lost messages are freed once. -/
def FreedOnce (a : Account β) : Prop :=
  ∀ b ∈ a.lost, a.freed.count b = 1

/-- Lost messages are reported, and their buffers are freed once. -/
def Settled (a : Account β) : Prop :=
  (∀ e ∈ a.handled, e.Reported) ∧ FreedOnce a

theorem Good.freedOnce {a : Account β} (ha : Good a) :
  FreedOnce a
  := fun b hb => ha.ledger.count_eq_one (ha.lost b hb)

/-- Every message keeps it; what is put out with messages for a harbor that is down is noted. -/
theorem Good.step {a a' : Account β} (ha : Good a) (hstep : a.step data found m = some a') :
  Good a' ∧ (NoneForDown a m ∧ a'.handled = a.handled ∨
    ¬ NoneForDown a m ∧ ∃ e ∈ a'.handled, ¬ e.Reported)
  := by
  rw [Account.step] at hstep
  split at hstep
  · next hnew =>
      obtain rfl := Option.some.inj hstep
      constructor
      · constructor
        · exact ha.sound.mainloop m
        · exact ledger_mainloop ha.ledger m hnew
        · intro b hb
          dsimp only at hb ⊢
          rw [List.mem_append, List.mem_append] at hb
          rw [List.mem_append]
          rcases hb with hb | hb | hb
          · exact .inl (ha.lost b hb)
          · exact .inr (freed_of_forDown ha.sound hb)
          · exact .inr (freed_of_wentDown hb)
      · by_cases hnone : a.harbor.forDown m = []
        · left
          use hnone
          exact if_pos hnone
        · right
          use hnone
          dsimp only
          rw [if_neg hnone]
          exact ⟨_, List.mem_append_right _ List.mem_cons_self, not_reported ha.sound hnone _⟩
  · cases hstep

/-- What is lost is freed once in every run, but lost messages are reported in all states exactly when no message is
for a harbor that is down. -/
theorem always_settled_iff (hstart : Started h) (ms : List (Message β)) :
  ((accounts data found).Always Settled (.start h) ms ↔ (accounts data found).Guarded NoneForDown (.start h) ms) ∧
    (accounts data found).Always FreedOnce (.start h) ms
  := by
  have hgood : Good (.start h) := Good.start hstart
  have hinit : (∀ e ∈ (Account.start h).handled, e.Reported) := by
    rintro e ⟨⟩
  constructor
  · rw [← Machine.always_iff_guarded (P := fun a => Good a ∧ ∀ e ∈ a.handled, e.Reported) _ ⟨hgood, hinit⟩]
    · constructor
      · apply Machine.Always.strengthen _ ⟨hgood, hinit⟩
        rintro a m a' ⟨ha, -⟩ hstep ⟨hreported, -⟩
        exact ⟨(ha.step hstep).1, hreported⟩
      · apply Machine.Always.mono
        rintro a ⟨ha, hreported⟩
        exact ⟨hreported, ha.freedOnce⟩
    · rintro a m a' ⟨ha, hreported⟩ hstep
      obtain ⟨ha', ⟨hnone, hsame⟩ | ⟨hsome, e, he, hnot⟩⟩ := ha.step hstep
      · apply iff_of_true _ hnone
        rw [hsame]
        exact ⟨ha', hreported⟩
      · apply iff_of_false _ hsome
        rintro ⟨-, hreported'⟩
        apply hnot (hreported' e he)
  · apply Machine.Always.mono fun a => Good.freedOnce
    apply Machine.always_of_invariant _ hgood
    intro a m a' ha hstep
    exact (ha.step hstep).1

/-- A harbor with the id 1, before it is connected to others. -/
def alone : Harbor ℕ where
  id := 1
  slave := 0x01000002
  map _ := none
  s _ := ⟨0, none, .WAIT, 0, 0, [], []⟩

theorem alone_started :
  Started alone
  where
  map _ := rfl
  slave _ := ⟨rfl, rfl, rfl, rfl⟩

theorem session_zero :
  -2 ^ 31 ≤ (0 : ℤ) ∧ (0 : ℤ) < 2 ^ 31
  := by decide

/-- The buffer 9 is sent from the service 7 here to harbor 2. -/
def toTwo : Message ℕ :=
  .toHandle 7 0x02000001 0 ⟨0, session_zero⟩ 9

/-- A message that waits for the handshake of harbor 2, which is wrong. -/
theorem always_settled_waiting :
  (accounts (fun _ => []) fun _ => false).Always Settled (.start alone) [.SA true 5 2, toTwo, .data 5 [3]]
  := by
  apply (always_settled_iff alone_started _).1.mpr
  apply Machine.Guarded.cons (by rfl) (by rfl)
  apply Machine.Guarded.cons (by rfl) (by rfl)
  apply Machine.Guarded.cons (by rfl) (by rfl)
  trivial

/-- The message that comes after the handshake is written to the socket that has been closed. -/
theorem down_not_reported :
  ¬ (accounts (fun _ => []) fun _ => false).Always Settled (.start alone) [.SA true 5 2, .data 5 [3], toTwo]
  := by
  intro halways
  have hsettled := ((halways.2 _ rfl).2 _ rfl).2 _ rfl
  have hreported : Handled.Reported ⟨5, [(7, 9)], [.remote 5 9 ⟨7, 1, 0⟩]⟩ := hsettled.1 _ List.mem_cons_self
  apply hreported.silent _ List.mem_cons_self
  rfl

end Harbor

end Skynet
