import Mathlib.Data.Int.Notation
import Mathlib.Data.List.AList
import Mathlib.Data.List.Basic
import Mathlib.Data.List.Induction
import Mathlib.Logic.Function.Basic

/-!
# Broadcasts

`services/skynet/broadcast.lua`: the service knows the agent of every connection and the map it is on, and
sends a message to one connection, to those on a map, or to those on a map from a least one on.
`services/broadcast/init.lua` has a call for each, with `nil` for what it does not name.

For one connection the service asks for a global `agent` that nothing sets, and for a least map it compares
the map of the call, which is `nil`, and not that of the connection.  So only the broadcasts to a map reach
the connections they are meant for, whatever has happened before.
-/

namespace Broadcast

/-! ### The service -/

/-- The tables `agentTab` and `fdMap`. -/
structure State where
  agentTab : ℤ → Option ℕ
  fdMap : AList fun _ : ℤ => ℤ

/-- The calls that change the tables. -/
inductive Op where
  | connected (fd : ℤ) (agent : ℕ)
  | disconnect (fd : ℤ)
  | enter (fd mapid : ℤ)

/-- `SOCKET.connected`, `SOCKET.disconnect` and `SOCKET.enter`.  A connection that is already on a map stays
there, only its agent is replaced. -/
def Op.apply (s : State) : Op → State
  | .connected fd agent =>
      { agentTab := Function.update s.agentTab fd (some agent)
        fdMap := if (s.fdMap.lookup fd).isNone then s.fdMap.insert fd 0 else s.fdMap }
  | .disconnect fd =>
      { agentTab := Function.update s.agentTab fd none
        fdMap := s.fdMap.erase fd }
  | .enter fd mapid => { s with fdMap := s.fdMap.insert fd mapid }

/-- The state after some calls. -/
def run (ops : List Op) : State :=
  ops.foldl Op.apply ⟨fun _ => none, ∅⟩

/-- The global variable `agent` of the service, which nothing sets. -/
def agent : Option ℕ := none

section Sending

variable {μ : Type} (msgtab : μ) (s : State)

/-- `sendAgentData`: the agent the message is sent to, if any. -/
def sendAgentData (fd : ℤ) : Option (ℕ × μ) :=
  (s.agentTab fd).map fun a => (a, msgtab)

/-- The loop of `SOCKET.broadcast` over the connections in the order `pairs` visits them: what is sent, and
the error that ends it. -/
def broadcastLoop (mapid minmapid : Option ℤ) : List ℤ → List (ℕ × μ) × Option String
  | [] => ([], none)
  | tofd :: order =>
      let rest := broadcastLoop mapid minmapid order
      let sent := ((sendAgentData msgtab s tofd).toList ++ rest.1, rest.2)
      if mapid.isSome ∧ mapid = s.fdMap.lookup tofd then sent
      else
        match minmapid, mapid with
        | none, _ => rest
        | some _, none => ([], some "attempt to compare number with nil")
        | some least, some m => if m ≥ least then sent else rest

/-- `SOCKET.broadcast` -/
def broadcast (fd mapid minmapid : Option ℤ) (order : List ℤ) : List (ℕ × μ) × Option String :=
  match fd with
  | some fd =>
      if s.fdMap.lookup fd = mapid ∧ agent.isSome then ((sendAgentData msgtab s fd).toList, none)
      else ([], none)
  | none =>
      if mapid.isSome ∨ minmapid.isSome then broadcastLoop msgtab s mapid minmapid order
      else ([], none)

end Sending

/-! ### The calls of the scripts -/

/-- The three calls that broadcast a message. -/
inductive Mode where
  | user (fd : ℤ)
  | map (mapid : ℤ)
  | minMap (minmapid : ℤ)

/-- `G_BROADCAST_LOGIN_TAG` -/
def G_BROADCAST_LOGIN_TAG : ℤ := 0

namespace GBroadcast

/-- `g_broadcast.connected` -/
def connected (fd : ℤ) (agent : ℕ) : List Op :=
  [.connected fd agent, .enter fd G_BROADCAST_LOGIN_TAG]

variable {μ : Type} (msgtab : μ) (s : State) (order : List ℤ)

/-- `g_broadcast.broadcastUser` -/
def broadcastUser (fd : ℤ) : List (ℕ × μ) × Option String :=
  broadcast msgtab s (some fd) none none order

/-- `g_broadcast.broadcastMap` -/
def broadcastMap (mapid : ℤ) : List (ℕ × μ) × Option String :=
  broadcast msgtab s none (some mapid) none order

/-- `g_broadcast.broadcastMinMap` -/
def broadcastMinMap (minmapid : ℤ) : List (ℕ × μ) × Option String :=
  broadcast msgtab s none none (some minmapid) order

end GBroadcast

/-- What a broadcast sends, and the error it ends with. -/
def Mode.send {μ : Type} (msgtab : μ) (s : State) (order : List ℤ) :
    Mode → List (ℕ × μ) × Option String
  | .user fd => GBroadcast.broadcastUser msgtab s order fd
  | .map mapid => GBroadcast.broadcastMap msgtab s order mapid
  | .minMap minmapid => GBroadcast.broadcastMinMap msgtab s order minmapid

/-! ### The audience -/

/-- The connections a broadcast is meant for, of those there are. -/
def Mode.Addresses (s : State) : Mode → ℤ → Prop
  | .user fd, tofd => tofd = fd
  | .map mapid, tofd => s.fdMap.lookup tofd = some mapid
  | .minMap minmapid, tofd => ∃ tomapid, s.fdMap.lookup tofd = some tomapid ∧ minmapid ≤ tomapid

/-- What is sent goes once to the agent of each connection the broadcast is meant for, and nowhere else, and
there is no error. -/
structure Reaches {μ : Type} (mode : Mode) (msgtab : μ) (s : State)
    (x : List (ℕ × μ) × Option String) : Prop where
  sent : ∃ fds : List ℤ, fds.Nodup ∧
    (∀ fd, fd ∈ fds ↔ (s.agentTab fd).isSome ∧ mode.Addresses s fd) ∧
    x.1 = fds.filterMap (sendAgentData msgtab s)
  quiet : x.2 = none

section Audience

variable {μ : Type} (msgtab : μ) (s : State)

/-- Nothing is sent to a connection that is not there. -/
theorem filterMap_connected (fds : List ℤ) :
  (fds.filter fun fd => (s.agentTab fd).isSome).filterMap (sendAgentData msgtab s) =
    fds.filterMap (sendAgentData msgtab s)
  := by
  rw [List.filterMap_filter]
  congr 1
  funext fd
  unfold sendAgentData
  cases s.agentTab fd with
  | none => rfl
  | some a => rfl

/-- A broadcast to a map goes to the connections on it, in the order they are visited. -/
theorem broadcastLoop_map (mapid : ℤ) (order : List ℤ) :
  broadcastLoop msgtab s (some mapid) none order =
    ((order.filter fun fd => s.fdMap.lookup fd = some mapid).filterMap (sendAgentData msgtab s), none)
  := by
  induction order with
  | nil => rfl
  | cons tofd order ih =>
      rw [broadcastLoop, ih]
      dsimp only
      split
      · next hmap =>
          rw [List.filter_cons_of_pos (by simpa using hmap.2.symm), List.filterMap_cons]
          cases sendAgentData msgtab s tofd with
          | none => rfl
          | some x => rfl
      · next hmap =>
          rw [List.filter_cons_of_neg]
          rw [decide_eq_true_eq]
          exact fun heq => hmap ⟨rfl, heq.symm⟩

theorem map_reaches (mapid : ℤ) {order : List ℤ} (h : order.Perm s.fdMap.keys) :
  Reaches (.map mapid) msgtab s (Mode.send msgtab s order (.map mapid))
  := by
  have hsend : Mode.send msgtab s order (.map mapid) =
      broadcastLoop msgtab s (some mapid) none order := rfl
  rw [hsend, broadcastLoop_map]
  constructor
  · use (order.filter fun fd => s.fdMap.lookup fd = some mapid).filter fun fd => (s.agentTab fd).isSome
    refine ⟨?_, ?_, ?_⟩
    · apply List.Nodup.filter
      apply List.Nodup.filter
      apply h.nodup_iff.mpr s.fdMap.keys_nodup
    · intro fd
      rw [List.mem_filter, List.mem_filter, h.mem_iff, decide_eq_true_eq]
      constructor
      · rintro ⟨⟨-, hmap⟩, hagent⟩
        use hagent, hmap
      · rintro ⟨hagent, hmap⟩
        have hkey : fd ∈ s.fdMap.keys := AList.mem_keys.mp (AList.lookup_isSome.mp (hmap ▸ rfl))
        use ⟨hkey, hmap⟩
    · symm
      apply filterMap_connected
  · rfl

theorem user_reaches_iff (fd : ℤ) (order : List ℤ) :
  Reaches (.user fd) msgtab s (Mode.send msgtab s order (.user fd)) ↔ s.agentTab fd = none
  := by
  have hsend : Mode.send msgtab s order (.user fd) = ([], none) := by
    unfold Mode.send GBroadcast.broadcastUser broadcast
    dsimp only
    rw [if_neg (fun h => Bool.false_ne_true h.2)]
  rw [hsend]
  constructor
  · intro h
    obtain ⟨fds, -, hfds, hsent⟩ := h.sent
    by_contra hagent
    have hmem := (hfds fd).mpr ⟨Option.isSome_iff_ne_none.mpr hagent, rfl⟩
    have hnone := List.filterMap_eq_nil_iff.mp hsent.symm fd hmem
    exact hagent (Option.map_eq_none_iff.mp hnone)
  · intro hagent
    constructor
    · use [], List.nodup_nil
      constructor
      · intro tofd
        apply iff_of_false List.not_mem_nil
        rintro ⟨hsome, rfl⟩
        rw [hagent] at hsome
        cases hsome
      · rfl
    · rfl

/-- With a least map, the first connection that is visited raises the error. -/
theorem broadcastLoop_minMap (least tofd : ℤ) (order : List ℤ) :
  (broadcastLoop msgtab s none (some least) (tofd :: order)).2 ≠ none
  := by
  rw [broadcastLoop, if_neg (fun h => Bool.false_ne_true h.1)]
  exact nofun

theorem minMap_reaches_iff (least : ℤ) :
  (∀ order, order.Perm s.fdMap.keys →
    Reaches (.minMap least) msgtab s (Mode.send msgtab s order (.minMap least))) ↔ s.fdMap = ∅
  := by
  have hsend : ∀ order, Mode.send msgtab s order (.minMap least) =
      broadcastLoop msgtab s none (some least) order := fun order => rfl
  constructor
  · intro h
    have hquiet := (h s.fdMap.keys (List.Perm.refl _)).quiet
    rw [hsend] at hquiet
    cases hkeys : s.fdMap.keys with
    | nil =>
        apply AList.ext
        apply List.map_eq_nil_iff.mp hkeys
    | cons tofd order =>
        rw [hkeys] at hquiet
        exact absurd hquiet (broadcastLoop_minMap msgtab s least tofd order)
  · intro hempty order horder
    rw [hempty] at horder
    obtain rfl := horder.eq_nil
    rw [hsend]
    constructor
    · use [], List.nodup_nil
      constructor
      · intro fd
        apply iff_of_false List.not_mem_nil
        rintro ⟨-, tomapid, hmap, -⟩
        rw [hempty] at hmap
        cases hmap
      · rfl
    · rfl

end Audience

/-- After any calls, a broadcast reaches those it is meant for precisely when it is to a map, or to one
connection that is not there, or from a map on when no connection is on a map. -/
theorem audience_reached_iff {μ : Type} (ops : List Op) (mode : Mode) (msgtab : μ) :
  (∀ order, order.Perm (run ops).fdMap.keys →
    Reaches mode msgtab (run ops) (mode.send msgtab (run ops) order)) ↔
  match mode with
  | .user fd => (run ops).agentTab fd = none
  | .map _ => True
  | .minMap _ => (run ops).fdMap = ∅
  := by
  cases mode with
  | user fd =>
      constructor
      · intro h
        apply (user_reaches_iff msgtab (run ops) fd _).mp
        apply h _ (List.Perm.refl _)
      · intro hagent order _
        apply (user_reaches_iff msgtab (run ops) fd order).mpr hagent
  | map mapid =>
      apply iff_of_true _ trivial
      intro order horder
      apply map_reaches msgtab (run ops) mapid horder
  | minMap least => apply minMap_reaches_iff msgtab (run ops) least

/-- A message to one connection does not reach it. -/
theorem user_not_reached :
  ¬ ∀ (ops : List Op) (mode : Mode) (msgtab : String) (order : List ℤ),
    order.Perm (run ops).fdMap.keys →
      Reaches mode msgtab (run ops) (mode.send msgtab (run ops) order)
  := by
  intro h
  have hperm : [1].Perm (run (GBroadcast.connected 1 10)).fdMap.keys := by decide
  obtain ⟨fds, -, hfds, hsent⟩ :=
    (h (GBroadcast.connected 1 10) (.user 1) "hello" [1] hperm).sent
  have hmem : 1 ∈ fds := (hfds 1).mpr ⟨rfl, rfl⟩
  have hnone := List.filterMap_eq_nil_iff.mp hsent.symm 1 hmem
  cases hnone

end Broadcast
