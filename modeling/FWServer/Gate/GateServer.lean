import FWServer.Kernel.Machine
import Mathlib.Data.List.AList

/-!
# The connections of the gate

`services/skynet/gateserver.lua`: the gate accepts connections up to a limit, hands their messages to
a handler and counts them.  A connection that is kicked stays in the table `connection`, with the
value `false`, until its socket is reported closed.
-/

namespace Gateserver

variable {Fd : Type}

/-- What `CMD.open` is given. -/
structure Conf where
  maxclient : Option ℕ
  nodelay : Bool

/-- The locals of the gate: the listening socket, the connections and their number. -/
structure State (Fd : Type) where
  socket : Option Fd
  connection : AList fun _ : Fd => Bool
  clientNumber : ℤ

/-- What happens to the gate: the events of its sockets, and calls of its handler. -/
inductive Event (Fd : Type) where
  | open (fd : Fd) (addr : String)
  | data (fd : Fd) (msg : List UInt8)
  | more
  | close (fd : Fd)
  | error (fd : Fd) (msg : String)
  | warning (fd : Fd) (size : ℕ)
  | openclient (fd : Fd)
  | closeclient (fd : Fd)

/-- What the gate does: it calls its handler, its sockets, or raises an error. -/
inductive Output (Fd : Type) where
  | connect (fd : Fd) (addr : String)
  | message (fd : Fd) (msg : List UInt8)
  | disconnect (fd : Fd)
  | error (fd : Fd) (msg : String)
  | warning (fd : Fd) (size : ℕ)
  | socketStart (fd : Fd)
  | socketClose (fd : Fd)
  | socketNodelay (fd : Fd)
  | skynetError (msg : String)
  | raise (msg : String)

/-- `maxclient`, once `CMD.open` has been called. -/
def maxclient (conf : Conf) : ℕ :=
  conf.maxclient.getD 1024

/-- The gate after `CMD.open` has listened on `socket`. -/
def listening (socket : Fd) : State Fd where
  socket := some socket
  connection := ∅
  clientNumber := 0

section Handlers

variable [DecidableEq Fd] (conf : Conf) (fd : Fd) (s : State Fd)

/-- `gateserver.openclient` -/
def openclient : State Fd × List (Output Fd) :=
  match s.connection.lookup fd with
  | some true => (s, [.socketStart fd])
  | _ => (s, [])

/-- `gateserver.closeclient` -/
def closeclient : State Fd × List (Output Fd) :=
  match s.connection.lookup fd with
  | some true => ({ s with connection := s.connection.insert fd false }, [.socketClose fd])
  | _ => (s, [])

/-- `dispatch_msg` -/
def dispatchMsg (msg : List UInt8) : State Fd × List (Output Fd) :=
  match s.connection.lookup fd with
  | some true => (s, [.message fd msg])
  | _ => (s, [])

/-- `MSG.open` -/
def msgOpen (addr : String) : State Fd × List (Output Fd) :=
  if s.clientNumber ≥ maxclient conf then (s, [.socketClose fd])
  else
    ({ s with
        connection := s.connection.insert fd true
        clientNumber := s.clientNumber + 1 },
      (if conf.nodelay then [.socketNodelay fd] else []) ++ [.connect fd addr])

/-- `close_fd` -/
def closeFd : State Fd :=
  match s.connection.lookup fd with
  | some _ =>
      { s with
        connection := s.connection.erase fd
        clientNumber := s.clientNumber - 1 }
  | none => s

/-- `MSG.close` -/
def msgClose : State Fd × List (Output Fd) :=
  if s.socket ≠ some fd then (closeFd fd s, [.disconnect fd])
  else ({ s with socket := none }, [])

/-- `MSG.error` -/
def msgError (msg : String) : State Fd × List (Output Fd) :=
  if s.socket = some fd then (s, [.socketClose fd, .skynetError msg])
  else (closeFd fd s, [.error fd msg])

/-- The effect of an event. -/
def handle (s : State Fd) : Event Fd → State Fd × List (Output Fd)
  | .open fd addr => msgOpen conf fd s addr
  | .data fd msg => dispatchMsg fd s msg
  | .more => (s, [.raise "didn't exception of more data"])
  | .close fd => msgClose fd s
  | .error fd msg => msgError fd s msg
  | .warning fd size => (s, [.warning fd size])
  | .openclient fd => openclient fd s
  | .closeclient fd => closeclient fd s

/-- The gate, listening on `socket`, under any sequence of events. -/
def machine (socket : Fd) : Machine (State Fd) (Event Fd) where
  init s := s = listening socket
  step s e := some (handle conf s e).1

/-- A connection is opened under an fd that is not in use. -/
def Fresh (s : State Fd) : Event Fd → Prop
  | .open fd _ => s.connection.lookup fd = none ∧ s.socket ≠ some fd
  | _ => True

end Handlers

/-! ### The number of connections -/

/-- What the gate keeps: it has counted its connections, within the limit, and the listening socket is
not one of them. -/
structure Counted (conf : Conf) [DecidableEq Fd] (s : State Fd) : Prop where
  count : s.clientNumber = s.connection.keys.length
  limit : s.clientNumber ≤ maxclient conf
  socket : ∀ fd, s.connection.lookup fd ≠ none → s.socket ≠ some fd

section Counted

variable [DecidableEq Fd] {conf : Conf} {fd fd' : Fd} {s s' : State Fd}

theorem length_keys_insert (c : AList fun _ : Fd => Bool) (h : c.lookup fd = none) (b : Bool) :
  (c.insert fd b).keys.length = c.keys.length + 1
  := by
  have hmem : fd ∉ c.keys := AList.lookup_eq_none.mp h
  rw [AList.keys_insert, List.length_cons, List.erase_of_not_mem hmem]

theorem mem_keys_of_lookup {c : AList fun _ : Fd => Bool} {b : Bool} (h : c.lookup fd = some b) :
  fd ∈ c.keys
  := by
  apply AList.lookup_isSome.mp
  rw [h]
  rfl

theorem length_keys_erase {c : AList fun _ : Fd => Bool} {b : Bool} (h : c.lookup fd = some b) :
  ((c.erase fd).keys.length : ℤ) = c.keys.length - 1
  := by
  have hmem := mem_keys_of_lookup h
  have hpos := List.length_pos_of_mem hmem
  rw [AList.keys_erase, List.length_erase_of_mem hmem]
  omega

/-- Marking a connection that is there changes the number of none. -/
theorem length_keys_mark {c : AList fun _ : Fd => Bool} {b : Bool} (h : c.lookup fd = some b)
    (b' : Bool) :
  (c.insert fd b').keys.length = c.keys.length
  := by
  have hmem := mem_keys_of_lookup h
  have hpos := List.length_pos_of_mem hmem
  rw [AList.keys_insert, List.length_cons, List.length_erase_of_mem hmem]
  omega

/-- A connection that is closed is forgotten, and not counted any more. -/
theorem Counted.closeFd (h : Counted conf s) (fd : Fd) :
  Counted conf (closeFd fd s)
  := by
  rw [Gateserver.closeFd]
  cases hlookup : s.connection.lookup fd with
  | none => exact h
  | some b =>
      constructor
      · rw [length_keys_erase hlookup, ← h.count]
      · have hlimit := h.limit
        dsimp only
        omega
      · intro fd' hfd'
        apply h.socket
        rcases eq_or_ne fd' fd with rfl | hne
        · rw [hlookup]
          exact Option.some_ne_none b
        · rwa [AList.lookup_erase_ne hne] at hfd'

/-- Every event keeps the count. -/
theorem Counted.handle (h : Counted conf s) {e : Event Fd} (hfresh : Fresh s e) :
  Counted conf (handle conf s e).1
  := by
  cases e with
  | «open» fd addr =>
      obtain ⟨hnone, hsocket⟩ := hfresh
      rw [Gateserver.handle, msgOpen]
      split
      · exact h
      · next hlimit =>
          constructor
          · dsimp only
            rw [length_keys_insert _ hnone, h.count]
            rfl
          · exact Int.add_one_le_of_lt (Int.lt_of_not_ge hlimit)
          · intro fd' hfd'
            rcases eq_or_ne fd' fd with rfl | hne
            · exact hsocket
            · rw [AList.lookup_insert_ne hne] at hfd'
              exact h.socket fd' hfd'
  | data fd msg =>
      rw [Gateserver.handle, dispatchMsg]
      split <;> exact h
  | more => exact h
  | close fd =>
      rw [Gateserver.handle, msgClose]
      split
      · exact h.closeFd fd
      · exact ⟨h.count, h.limit, fun _ _ => nofun⟩
  | error fd msg =>
      rw [Gateserver.handle, msgError]
      split
      · exact h
      · exact h.closeFd fd
  | warning fd size => exact h
  | openclient fd =>
      rw [Gateserver.handle, openclient]
      split <;> exact h
  | closeclient fd =>
      rw [Gateserver.handle, closeclient]
      split
      · next hlookup =>
          constructor
          · dsimp only
            rw [length_keys_mark hlookup, h.count]
          · exact h.limit
          · intro fd' hfd'
            apply h.socket
            rcases eq_or_ne fd' fd with rfl | hne
            · rw [hlookup]
              exact Option.some_ne_none true
            · rwa [AList.lookup_insert_ne hne] at hfd'
      · exact h

end Counted

/-! ### Who may send messages -/

/-- The events that end a connection: it is reported closed or failed, or it is kicked. -/
def Ends (fd : Fd) : Event Fd → Prop
  | .close fd' => fd' = fd
  | .error fd' _ => fd' = fd
  | .closeclient fd' => fd' = fd
  | _ => False

section Messages

variable [DecidableEq Fd] {conf : Conf} {socket fd : Fd} {s s' : State Fd}

/-- Closing forgets one connection and leaves the others. -/
theorem lookup_closeFd {fd' : Fd} {b : Bool}
    (h : (closeFd fd' s).connection.lookup fd = some b) :
  fd' ≠ fd ∧ s.connection.lookup fd = some b
  := by
  rw [closeFd] at h
  split at h
  · rcases eq_or_ne fd fd' with rfl | hne
    · rw [AList.lookup_erase] at h
      cases h
    · rw [AList.lookup_erase_ne hne] at h
      exact ⟨hne.symm, h⟩
  · next hnone =>
      refine ⟨?_, h⟩
      rintro rfl
      cases hnone.symm.trans h

/-- A connection is live when it has just been accepted, or was live and has not been ended. -/
theorem live_cases (hcounted : Counted conf s) {e : Event Fd}
    (h : (handle conf s e).1.connection.lookup fd = some true) :
  (∃ addr, e = .open fd addr ∧ s.clientNumber < maxclient conf) ∨
    (s.connection.lookup fd = some true ∧ ¬ Ends fd e)
  := by
  cases e with
  | «open» fd' addr =>
      rw [handle, msgOpen] at h
      split at h
      · exact .inr ⟨h, id⟩
      · next hlimit =>
          rcases eq_or_ne fd fd' with rfl | hne
          · exact .inl ⟨addr, rfl, Int.lt_of_not_ge hlimit⟩
          · rw [AList.lookup_insert_ne hne] at h
            exact .inr ⟨h, id⟩
  | data fd' msg =>
      rw [handle, dispatchMsg] at h
      split at h <;> exact .inr ⟨h, id⟩
  | more => exact .inr ⟨h, id⟩
  | close fd' =>
      rw [handle, msgClose] at h
      split at h
      · obtain ⟨hne, hlive⟩ := lookup_closeFd h
        exact .inr ⟨hlive, hne⟩
      · next hsocket =>
          refine .inr ⟨h, ?_⟩
          rintro rfl
          have hentry : s.connection.lookup fd' ≠ none := by
            intro hnone
            cases hnone.symm.trans h
          exact hsocket (hcounted.socket fd' hentry)
  | error fd' msg =>
      rw [handle, msgError] at h
      split at h
      · next hsocket =>
          refine .inr ⟨h, ?_⟩
          rintro rfl
          have hentry : s.connection.lookup fd' ≠ none := by
            intro hnone
            cases hnone.symm.trans h
          exact hcounted.socket fd' hentry hsocket
      · obtain ⟨hne, hlive⟩ := lookup_closeFd h
        exact .inr ⟨hlive, hne⟩
  | warning fd' size => exact .inr ⟨h, id⟩
  | openclient fd' =>
      rw [handle, openclient] at h
      split at h <;> exact .inr ⟨h, id⟩
  | closeclient fd' =>
      rw [handle, closeclient] at h
      split at h
      · rcases eq_or_ne fd fd' with rfl | hne
        · rw [AList.lookup_insert] at h
          cases h
        · rw [AList.lookup_insert_ne hne] at h
          exact .inr ⟨h, hne.symm⟩
      · next hdead =>
          refine .inr ⟨h, ?_⟩
          rintro rfl
          exact hdead h

/-- Only messages of live connections go to the handler. -/
theorem message_of_live {e : Event Fd} {msg : List UInt8}
    (h : Output.message fd msg ∈ (handle conf s e).2) :
  e = .data fd msg ∧ s.connection.lookup fd = some true
  := by
  cases e with
  | data fd' msg' =>
      rw [handle, dispatchMsg] at h
      split at h
      · next hlive =>
          cases List.mem_singleton.mp h
          exact ⟨rfl, hlive⟩
      · cases h
  | «open» fd' addr =>
      rw [handle, msgOpen] at h
      split at h
      · cases List.mem_singleton.mp h
      · cases conf.nodelay <;> simp at h
  | more => cases List.mem_singleton.mp h
  | close fd' =>
      rw [handle, msgClose] at h
      split at h
      · cases List.mem_singleton.mp h
      · cases h
  | error fd' msg' =>
      rw [handle, msgError] at h
      split at h
      · simp at h
      · cases List.mem_singleton.mp h
  | warning fd' size => cases List.mem_singleton.mp h
  | openclient fd' =>
      rw [handle, openclient] at h
      split at h
      · cases List.mem_singleton.mp h
      · cases h
  | closeclient fd' =>
      rw [handle, closeclient] at h
      split at h
      · cases List.mem_singleton.mp h
      · cases h

theorem counted_of_run {es : List (Event Fd)}
    (h : (machine conf socket).Run Fresh es s) :
  Counted conf s
  := by
  apply Machine.invariant (P := Counted conf) _ _ h.reaches
  · rintro s rfl
    constructor
    · rfl
    · exact Int.natCast_nonneg _
    · intro fd hfd
      exact absurd (AList.lookup_empty fd) hfd
  · intro s e s' hs hfresh hstep
    obtain rfl := Option.some.inj hstep
    exact hs.handle hfresh

/-- A live connection has been accepted and not ended since. -/
theorem accepted_of_live {es : List (Event Fd)} (h : (machine conf socket).Run Fresh es s)
    (hlive : s.connection.lookup fd = some true) :
  ∃ before addr after s₁, es = before ++ .open fd addr :: after ∧
    (machine conf socket).Run Fresh before s₁ ∧ s₁.clientNumber < maxclient conf ∧
      ∀ e ∈ after, ¬ Ends fd e
  := by
  induction h with
  | init hs =>
      obtain rfl := hs
      cases (AList.lookup_empty fd).symm.trans hlive
  | step hrun hfresh hstep ih =>
      next es s₀ s₁ e =>
      obtain rfl := Option.some.inj hstep
      obtain ⟨addr, rfl, hlimit⟩ | ⟨hlive₀, hends⟩ := live_cases (counted_of_run hrun) hlive
      · refine ⟨es, addr, [], s₀, rfl, hrun, hlimit, ?_⟩
        intro e he
        cases he
      · obtain ⟨before, addr, after, s₂, rfl, hbefore, hlimit, hafter⟩ := ih hlive₀
        refine ⟨before, addr, after ++ [e], s₂, ?_, hbefore, hlimit, ?_⟩
        · rw [List.append_assoc, List.cons_append]
        · intro e' he'
          rcases List.mem_append.mp he' with he' | he'
          · exact hafter e' he'
          · obtain rfl := List.mem_singleton.mp he'
            exact hends

end Messages

/-- In every state the number of connections is right and within the limit, and the handler gets
the messages of the connections that have been accepted and not ended since. -/
theorem connections_counted [DecidableEq Fd] (conf : Conf) (socket : Fd) {es : List (Event Fd)}
    {s : State Fd} (h : (machine conf socket).Run Fresh es s) :
  (s.clientNumber = s.connection.keys.length ∧ s.clientNumber ≤ maxclient conf ∧
    0 ≤ s.clientNumber) ∧
  ∀ e fd msg, Output.message fd msg ∈ (handle conf s e).2 →
    e = .data fd msg ∧ ∃ before addr after s₁, es = before ++ .open fd addr :: after ∧
      (machine conf socket).Run Fresh before s₁ ∧ s₁.clientNumber < maxclient conf ∧
        ∀ e ∈ after, ¬ Ends fd e
  := by
  have hcounted := counted_of_run h
  constructor
  · use hcounted.count, hcounted.limit
    rw [hcounted.count]
    exact Int.natCast_nonneg _
  · intro e fd msg hmessage
    obtain ⟨rfl, hlive⟩ := message_of_live hmessage
    exact ⟨rfl, accepted_of_live h hlive⟩

/-- One connection is allowed: the second one is refused, and the first one is kicked. -/
theorem connections_counted_kicked :
  let conf : Conf := ⟨some 1, false⟩
  let es : List (Event ℕ) := [.open 5 "127.0.0.1:4000", .open 6 "127.0.0.1:4001", .closeclient 5]
  ∃ s, (machine conf 1).Run Fresh es s ∧ s.connection.lookup 5 = some false ∧
    s.connection.lookup 6 = none ∧
    (s.clientNumber = s.connection.keys.length ∧ s.clientNumber ≤ maxclient conf ∧
      0 ≤ s.clientNumber) ∧
    ∀ e fd msg, Output.message fd msg ∈ (handle conf s e).2 →
      e = .data fd msg ∧ ∃ before addr after s₁, es = before ++ .open fd addr :: after ∧
        (machine conf 1).Run Fresh before s₁ ∧ s₁.clientNumber < maxclient conf ∧
          ∀ e ∈ after, ¬ Ends fd e
  := by
  intro conf es
  have hopen : (machine conf 1).Run Fresh [.open 5 "127.0.0.1:4000"] _ :=
    .step (.init rfl) ⟨rfl, nofun⟩ rfl
  have hrefuse : (machine conf 1).Run Fresh [.open 5 "127.0.0.1:4000", .open 6 "127.0.0.1:4001"] _ :=
    .step hopen ⟨rfl, nofun⟩ rfl
  have hkick : (machine conf 1).Run Fresh es _ := .step hrefuse trivial rfl
  exact ⟨_, hkick, rfl, rfl, connections_counted conf 1 hkick⟩

end Gateserver
