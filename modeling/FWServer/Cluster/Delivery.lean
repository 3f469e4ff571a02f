import FWServer.Cluster.Cluster
import Mathlib.Algebra.Order.Ring.Nat
import Mathlib.Data.List.Basic
import Mathlib.Data.List.Range

/-!
# Delivery of cluster messages

What has been sent from one node to another has been passed to the agent there, is on the link between
them, or is still with the coroutine that is to send it; in this order, as long as no coroutine overtakes
another one.
-/

namespace Cluster

/-! ### Messages on their way -/

/-- A suspended coroutine of a cluster service. -/
abbrev Suspended : Type := System.Suspended interface Job Unit

/-- The message a job is to send from the node `c.1` to the node `c.2`. -/
def Job.message (c : String × String) : Job → Option Lua.Value
  | .send node clukey msgData => if (node, clukey) = c then some msgData else none
  | _ => none

/-- The message a packet carries. -/
def Packet.message : Packet → Option Lua.Value
  | .data _ msgData => some msgData
  | .open _ _ => none

/-- The message the coroutine `n` has not sent yet. -/
def messageAt (waiting : ℕ → Option Suspended) (c : String × String) (n : ℕ) : Option Lua.Value :=
  (waiting n).bind fun t => t.job.message c

/-- The messages passed to an agent of the node `c.2`, in order. -/
def passed (s : State) (c : String × String) : List Lua.Value :=
  (s.network.passed c).map Prod.snd

/-- The messages on the link. -/
def inFlight (s : State) (c : String × String) : List Lua.Value :=
  (s.network.link c).filterMap Packet.message

/-- The messages that have not been sent yet, in the order of the calls of `CMD.send`. -/
def pending (s : State) (c : String × String) : List Lua.Value :=
  (List.range s.started.length).filterMap (messageAt s.waiting c)

/-- The messages of the calls of `CMD.send`, in order. -/
def sent (s : State) (c : String × String) : List Lua.Value :=
  s.started.filterMap (Job.message c)

/-- A step that lets no message overtake another one: `CMD.send` is called with a value that counts as
true, and not while an earlier call waits although there is a proxy; and a call does not end its waiting
before an earlier one. -/
def Careful (s : State) : System.Step Event → Prop
  | .event (.send a b m) => a ≠ b → m.truthy = true ∧
      ((s.process a).clustertab b ≠ none → ∀ k, messageAt s.waiting (a, b) k = none)
  | .event _ => True
  | .wake n => ∀ t p clukey, s.waiting n = some t → t.query = .open p clukey →
      ∀ c, t.job.message c ≠ none → ∀ k < n, messageAt s.waiting c k = none

/-- Nothing happens unless a node is asked to send a message. -/
def Quiet (s : State) : Prop :=
  ∀ l, (∀ a b m, l ≠ .event (.send a b m)) → system.step s l = none

section Pending

variable {α : Type} {f : ℕ → Option α} {n N : ℕ}

/-- What comes last is put last. -/
theorem filterMap_range_succ_update (f : ℕ → Option α) (N : ℕ) (v : Option α) :
  (List.range (N + 1)).filterMap (Function.update f N v)
    = (List.range N).filterMap f ++ v.toList
  := by
  have hbelow : (List.range N).filterMap (Function.update f N v) = (List.range N).filterMap f := by
    apply List.filterMap_congr
    intro k hk
    exact Function.update_of_ne (List.mem_range.mp hk).ne _ _
  rw [List.range_succ, List.filterMap_append, hbelow]
  cases v <;> simp

/-- What comes first is taken from the front. -/
theorem filterMap_range_update (hn : n < N) {m : α} (hm : f n = some m) (hfirst : ∀ k < n, f k = none) :
  (List.range N).filterMap f = m :: (List.range N).filterMap (Function.update f n none)
  := by
  obtain ⟨d, rfl⟩ := Nat.exists_eq_add_of_le hn
  have hbelow : ∀ g : ℕ → Option α, (∀ k < n, g k = none) → (List.range n).filterMap g = [] := by
    intro g hg
    apply List.filterMap_eq_nil_iff.mpr
    intro k hk
    exact hg k (List.mem_range.mp hk)
  have hbelow' : (List.range n).filterMap (Function.update f n none) = [] := by
    apply hbelow
    intro k hk
    rw [Function.update_of_ne hk.ne, hfirst k hk]
  have habove : ((List.range d).map (n + 1 + ·)).filterMap (Function.update f n none)
      = ((List.range d).map (n + 1 + ·)).filterMap f := by
    apply List.filterMap_congr
    intro k hk
    obtain ⟨i, -, rfl⟩ := List.mem_map.mp hk
    apply Function.update_of_ne
    omega
  rw [Nat.succ_eq_add_one, List.range_add, List.range_succ]
  simp only [List.filterMap_append, hbelow f hfirst, hbelow', habove]
  simp [hm]

theorem messageAt_update (waiting : ℕ → Option Suspended) (c : String × String) (n : ℕ)
    (x : Option Suspended) :
  messageAt (Function.update waiting n x) c
    = Function.update (messageAt waiting c) n (x.bind fun t => t.job.message c)
  := Function.comp_update (fun x : Option Suspended => x.bind fun t => t.job.message c) waiting n x

end Pending

/-! ### What holds in every state -/

/-- The node `b` has an agent for the node `a`. -/
def Ready (process : String → Process) (a b : String) : Prop :=
  (process b).agenttab a ≠ none

/-- The coroutines that may be suspended. -/
inductive Form (process : String → Process) : Suspended → Prop
  | querying {a b : String} {m : Lua.Value} (hne : a ≠ b) (hm : m.truthy = true) :
      Form process ⟨.send a b m, .query b registerKey, queried b m⟩
  | proxying {a b : String} {m : Lua.Value} (hne : a ≠ b) (hm : m.truthy = true) :
      Form process ⟨.send a b m, .proxy b (.address b), proxied b m⟩
  | opening {a b : String} {m : Lua.Value} (hne : a ≠ b) (hm : m.truthy = true) :
      Form process ⟨.send a b m, .open ⟨b⟩ a, connected ⟨b⟩ m⟩
  | creating {a b : String} (n : ℕ) : Form process ⟨.open b a n, .newservice, agentCreated a⟩
  | starting {a b : String} (n h : ℕ) (conf : Conf) (hready : Ready process a b) :
      Form process ⟨.open b a n, .startcluster h conf, agentStarted⟩

/-- The answers to a call. -/
def Query.Allows (process : String → Process) : Query → Except String Answer → Prop
  | .query node _, r => r = .ok (.address node)
  | .proxy node _, r => r = .ok (.proxy ⟨node⟩)
  | .newservice, r => ∃ h, r = .ok (.handle h)
  | .startcluster _ _, r => r = .ok .done
  | .open asrc clukey, r => r = .ok .done ∧ Ready process clukey asrc.node

/-- What may become of the call of a suspended coroutine. -/
def Fits (process : String → Process) (t : Suspended) : Slot interface → Prop
  | .asked q => q = t.query
  | .answered r => t.query.Allows process r

/-- What a packet on a link may be. -/
def Packet.Travels (process : String → Process) (c : String × String) : Packet → Prop
  | .open _ clukey => clukey = c.1
  | .data clukey m => clukey = c.1 ∧ m.truthy = true ∧ Ready process c.1 c.2

/-- What the services know of each other. -/
structure Core (s : State) : Prop where
  held : System.Held (Form s.process) (Fits s.process) s.started s.waiting s.network.slots
  selfclukey : ∀ a, (s.process a).selfclukey = a
  proxies : ∀ a b p, (s.process a).clustertab b = some p → p = ⟨b⟩
  packets : ∀ c x, x ∈ s.network.link c → x.Travels s.process c
  /-- Where there is a proxy, there is an agent, or a coroutine waits for one. -/
  connected : ∀ a b, (s.process a).clustertab b ≠ none →
    (∃ n, messageAt s.waiting (a, b) n ≠ none) ∨ Ready s.process a b

/-- Every suspended coroutine has called, and a call of another node is on the link or being served. -/
structure Served (s : State) : Prop where
  called : ∀ n, s.waiting n ≠ none → s.network.slots n ≠ none
  opens : ∀ n p clukey, s.network.slots n = some (.asked (.open p clukey)) →
    Packet.open n clukey ∈ s.network.link (clukey, p.node) ∨
    ∃ k t, s.waiting k = some t ∧ t.job = .open p.node clukey n

/-! ### What a step does -/

/-- The network once the answer of a coroutine has been taken out. -/
def Network.take (w : Network) (n : ℕ) : Network :=
  { w with slots := Function.update w.slots n none }

/-- The network once a packet has been taken off a link. -/
def Network.pop (w : Network) (c : String × String) (rest : List Packet) : Network :=
  { w with link := Function.update w.link c rest }

/-- The network once the call of another node has been answered. -/
def Network.reply (w : Network) (p : Proxy) (clukey : String) (n : ℕ) : Network :=
  if w.slots.asked n = some (.open p clukey) then w.answer n (.ok .done) else w

/-- The careful steps. -/
inductive Moves (s : State) : System.Step Event → State → Prop
  | answered {n : ℕ} {q : Query} {r : Except String Answer} (services : ℕ)
      (hasked : s.network.slots n = some (.asked q)) (hr : q.Allows s.process r)
      (hopen : ∀ p clukey, q ≠ .open p clukey) :
      Moves s (.event (.serve n))
        { s with network := { s.network.answer n r with services := services } }
  | passedLocal {a : String} {m : Lua.Value} {w : Network}
      (hw : w = s.network ∨ ∃ h, w = s.network.pass (a, a) h m) :
      Moves s (.event (.send a a m)) { s with network := w, started := s.started ++ [.send a a m] }
  | sent {a b : String} {m : Lua.Value} (hne : a ≠ b) (hm : m.truthy = true)
      (hready : Ready s.process a b) (hnone : ∀ k, messageAt s.waiting (a, b) k = none) :
      Moves s (.event (.send a b m))
        { s with
          network := s.network.transmit (a, b) (.data a m)
          started := s.started ++ [.send a b m] }
  | queried {a b : String} {m : Lua.Value} (hne : a ≠ b) (hm : m.truthy = true) :
      Moves s (.event (.send a b m))
        { s with
          network := s.network.ask s.started.length (.query b registerKey)
          started := s.started ++ [.send a b m]
          waiting := Function.update s.waiting s.started.length
            (some ⟨.send a b m, .query b registerKey, queried b m⟩) }
  | opened {a b : String} {n : ℕ} {rest : List Packet}
      (hlink : s.network.link (a, b) = .open n a :: rest) :
      Moves s (.event (.deliver (a, b)))
        { s with
          network := (s.network.pop (a, b) rest).ask s.started.length .newservice
          started := s.started ++ [.open b a n]
          waiting := Function.update s.waiting s.started.length
            (some ⟨.open b a n, .newservice, agentCreated a⟩) }
  | passed {a b : String} {m : Lua.Value} {rest : List Packet} (h : ℕ)
      (hlink : s.network.link (a, b) = .data a m :: rest) :
      Moves s (.event (.deliver (a, b)))
        { s with
          network := (s.network.pop (a, b) rest).pass (a, b) h m
          started := s.started ++ [.data b a m] }
  | proxied {a b : String} {m : Lua.Value} {n : ℕ} (hne : a ≠ b) (hm : m.truthy = true)
      (hn : s.waiting n = some ⟨.send a b m, .query b registerKey, Cluster.queried b m⟩) :
      Moves s (.wake n)
        { s with
          network := (s.network.take n).ask n (.proxy b (.address b))
          waiting := Function.update s.waiting n
            (some ⟨.send a b m, .proxy b (.address b), Cluster.proxied b m⟩) }
  | opening {a b : String} {m : Lua.Value} {n : ℕ} (hne : a ≠ b) (hm : m.truthy = true)
      (hn : s.waiting n = some ⟨.send a b m, .proxy b (.address b), Cluster.proxied b m⟩) :
      Moves s (.wake n)
        { s with
          process := Function.update s.process a ((s.process a).setCluster b ⟨b⟩)
          network := ((s.network.take n).transmit (a, b) (.open n a)).ask n (.open ⟨b⟩ a)
          waiting := Function.update s.waiting n
            (some ⟨.send a b m, .open ⟨b⟩ a, connected ⟨b⟩ m⟩) }
  | flushed {a b : String} {m : Lua.Value} {n : ℕ} (hne : a ≠ b) (hm : m.truthy = true)
      (hn : s.waiting n = some ⟨.send a b m, .open ⟨b⟩ a, connected ⟨b⟩ m⟩)
      (hready : Ready s.process a b) (hfirst : ∀ k < n, messageAt s.waiting (a, b) k = none) :
      Moves s (.wake n)
        { s with
          network := (s.network.take n).transmit (a, b) (.data a m)
          waiting := Function.update s.waiting n none }
  | created {a b : String} {n k : ℕ} (h : ℕ)
      (hn : s.waiting n = some ⟨.open b a k, .newservice, agentCreated a⟩) :
      Moves s (.wake n)
        { s with
          process := Function.update s.process b ((s.process b).setAgent a h)
          network := (s.network.take n).ask n (.startcluster h ⟨a, (s.process b).WATCHDOG, true⟩)
          waiting := Function.update s.waiting n
            (some ⟨.open b a k, .startcluster h ⟨a, (s.process b).WATCHDOG, true⟩, agentStarted⟩) }
  | finished {a b : String} {n k h : ℕ} {conf : Conf} (hready : Ready s.process a b)
      (hn : s.waiting n = some ⟨.open b a k, .startcluster h conf, agentStarted⟩) :
      Moves s (.wake n)
        { s with
          network := (s.network.take n).reply ⟨b⟩ a k
          waiting := Function.update s.waiting n none }

section Step

variable {s s' : State} {n : ℕ} {j : Job} {c : Cluster Unit} {out : List Message}

/-- A stretch that ends without touching the variables of its service. -/
theorem run_returned
    (h : c.resume (s.process j.node) = ⟨out, s.process j.node, .returned ()⟩) :
  system.run n j c s = { s with
    network := finish j (.returned ()) (system.sendAll j out s.network)
    waiting := Function.update s.waiting n none }
  := by
  have hrun := System.run_returned (N := system) (n := n) h
  rwa [show system.home j = j.node from rfl, Function.update_eq_self] at hrun

/-- A stretch that calls without touching the variables of its service. -/
theorem run_waiting {q : Query} {k : Except String Answer → Cluster Unit}
    (h : c.resume (s.process j.node) = ⟨out, s.process j.node, .waiting q k⟩) :
  system.run n j c s = { s with
    network := issue n j q (system.sendAll j out s.network)
    waiting := Function.update s.waiting n (some ⟨j, q, k⟩) }
  := by
  have hrun := System.run_waiting (N := system) (n := n) h
  rwa [show system.home j = j.node from rfl, Function.update_eq_self] at hrun

/-- A message is passed to the agent, if there is one. -/
theorem sendAgentMsg_resume (p : Process) (clukey : String) (m : Lua.Value) :
  (sendAgentMsg clukey m).resume p =
    ⟨(if m.truthy then (p.agenttab clukey).toList.map (.recvcluster · m) else []), p, .returned ()⟩
  := by
  unfold sendAgentMsg
  dsimp only [Coroutine.resume]
  cases hagent : p.agenttab clukey with
  | none =>
      dsimp only
      split <;> rfl
  | some a => cases m.truthy <;> rfl

theorem send_resume_self {p : Process} {clukey : String} (h : p.selfclukey = clukey) (m : Lua.Value) :
  (send clukey m).resume p = (sendAgentMsg clukey m).resume p
  := by
  rw [send, Coroutine.resume, if_pos h]

theorem send_resume {p : Process} {clukey : String} (h : p.selfclukey ≠ clukey) (m : Lua.Value) :
  (send clukey m).resume p =
    match p.clustertab clukey with
    | some asrc => ⟨[.data asrc p.selfclukey m], p, .returned ()⟩
    | none => ⟨[], p, .waiting (.query clukey registerKey) (queried clukey m)⟩
  := by
  rw [send, Coroutine.resume, if_neg h]
  cases p.clustertab clukey <;> rfl

/-- A service answers a call of its own node. -/
theorem moves_of_serve {w : Network} {n : ℕ} {j : Option Job}
    (hw : react (.serve n) s.network = some (w, j)) :
  j = none ∧ Moves s (.event (.serve n)) { s with network := w }
  := by
  obtain ⟨q, hq, hw⟩ := Option.bind_eq_some_iff.mp hw
  have hasked := Slots.asked_eq_some.mp hq
  cases q with
  | query node name =>
      obtain ⟨rfl, rfl⟩ := Prod.mk.inj (Option.some.inj hw)
      exact ⟨rfl, .answered _ hasked rfl nofun⟩
  | proxy node address =>
      obtain ⟨rfl, rfl⟩ := Prod.mk.inj (Option.some.inj hw)
      exact ⟨rfl, .answered _ hasked rfl nofun⟩
  | newservice =>
      obtain ⟨rfl, rfl⟩ := Prod.mk.inj (Option.some.inj hw)
      exact ⟨rfl, .answered _ hasked ⟨_, rfl⟩ nofun⟩
  | startcluster a conf =>
      obtain ⟨rfl, rfl⟩ := Prod.mk.inj (Option.some.inj hw)
      exact ⟨rfl, .answered _ hasked rfl nofun⟩
  | «open» p clukey => cases hw

/-- The packet that arrives is the first one on its link. -/
theorem react_deliver {c : String × String} {w w' : Network} {j : Option Job}
    (hw : react (.deliver c) w = some (w', j)) :
  ∃ x rest, w.link c = x :: rest ∧ w' = w.pop c rest ∧ j = some (x.job c.2)
  := by
  dsimp only [react] at hw
  split at hw
  · cases hw
  · next x rest hlink =>
      obtain ⟨rfl, rfl⟩ := Prod.mk.inj (Option.some.inj hw)
      exact ⟨x, rest, hlink, rfl, rfl⟩

/-- A call of `CMD.send`. -/
theorem moves_of_send (h : Core s) {a b : String} {m : Lua.Value}
    (hcareful : Careful s (.event (.send a b m))) :
  Moves s (.event (.send a b m))
    (system.run s.started.length (.send a b m) (send b m)
      { s with started := s.started ++ [.send a b m] })
  := by
  have hfresh : Function.update s.waiting s.started.length none = s.waiting := by
    rw [← h.held.fresh (Nat.le_refl _), Function.update_eq_self]
  let s₀ : State := { s with started := s.started ++ [.send a b m] }
  change Moves s _ (system.run s.started.length (.send a b m) (send b m) s₀)
  rcases eq_or_ne a b with rfl | hne
  · have hresume := (send_resume_self (h.selfclukey a) m).trans
      (sendAgentMsg_resume (s₀.process a) a m)
    rw [run_returned (j := .send a a m) (s := s₀) hresume]
    dsimp only [s₀]
    rw [hfresh]
    apply Moves.passedLocal
    cases m.truthy with
    | false => exact .inl rfl
    | true =>
        cases (s.process a).agenttab a with
        | none => exact .inl rfl
        | some h => exact .inr ⟨h, rfl⟩
  · have hself : (s.process a).selfclukey ≠ b := by rwa [h.selfclukey a]
    obtain ⟨hm, hnone⟩ := hcareful hne
    have hresume := send_resume hself m
    cases hproxy : (s.process a).clustertab b with
    | none =>
        rw [hproxy] at hresume
        rw [run_waiting (j := .send a b m) (s := s₀) hresume]
        exact .queried hne hm
    | some p =>
        obtain rfl := h.proxies a b p hproxy
        rw [hproxy, h.selfclukey a] at hresume
        rw [run_returned (j := .send a b m) (s := s₀) hresume]
        dsimp only [s₀]
        rw [hfresh]
        have hsome : (s.process a).clustertab b ≠ none := by
          rw [hproxy]
          exact nofun
        have hnone' := hnone hsome
        obtain ⟨k, hk⟩ | hready := h.connected a b hsome
        · exact absurd (hnone' k) hk
        · exact .sent hne hm hready hnone'

/-- A packet arrives. -/
theorem moves_of_deliver (h : Core s) {a b : String} {x : Packet} {rest : List Packet}
    (hlink : s.network.link (a, b) = x :: rest) :
  Moves s (.event (.deliver (a, b)))
    (system.run s.started.length (x.job b) (code (x.job b))
      { s with network := s.network.pop (a, b) rest, started := s.started ++ [x.job b] })
  := by
  have hfresh : Function.update s.waiting s.started.length none = s.waiting := by
    rw [← h.held.fresh (Nat.le_refl _), Function.update_eq_self]
  have hx := h.packets (a, b) x (by rw [hlink]; exact List.mem_cons_self)
  cases x with
  | «open» n clukey =>
      obtain rfl := hx
      have hresume : (openAgent clukey).resume (s.process b)
          = ⟨[], s.process b, .waiting .newservice (agentCreated clukey)⟩ := rfl
      have hrun := run_waiting (n := s.started.length) (j := .open b clukey n) (s :=
        { s with
          network := s.network.pop (clukey, b) rest
          started := s.started ++ [.open b clukey n] }) hresume
      exact hrun ▸ .opened hlink
  | data clukey m =>
      obtain ⟨rfl, hm, hready⟩ := hx
      obtain ⟨k, hk⟩ := Option.ne_none_iff_exists'.mp hready
      have hresume := sendAgentMsg_resume (s.process b) clukey m
      rw [hk, if_pos hm] at hresume
      have hrun := run_returned (n := s.started.length) (j := .data b clukey m) (s :=
        { s with
          network := s.network.pop (clukey, b) rest
          started := s.started ++ [.data b clukey m] }) hresume
      dsimp only at hrun
      rw [hfresh] at hrun
      exact hrun ▸ .passed k hlink

/-- A coroutine is resumed. -/
theorem moves_of_wake (h : Core s) {t : Suspended} {r : Except String Answer}
    (ht : s.waiting n = some t) (hr : s.network.slots n = some (.answered r))
    (hcareful : Careful s (.wake n)) :
  Moves s (.wake n) (system.run n t.job (t.resumed r) { s with network := s.network.take n })
  := by
  let s₀ : State := { s with network := s.network.take n }
  change Moves s _ (system.run n t.job (t.resumed r) s₀)
  have hallows : t.query.Allows s.process r := by
    obtain ⟨t', ht', hfits⟩ := h.held.fits n _ hr
    cases ht.symm.trans ht'
    exact hfits
  cases h.held.form n t ht with
  | @querying a b m hne hm =>
      obtain rfl := hallows
      rw [run_waiting (j := .send a b m) (s := s₀) rfl]
      exact .proxied hne hm ht
  | @proxying a b m hne hm =>
      obtain rfl := hallows
      have hrun := System.run_waiting (N := system) (n := n) (j := .send a b m) (s := s₀)
        (c := proxied b m (.ok (.proxy ⟨b⟩))) rfl
      have hself : (s₀.process a).selfclukey = a := h.selfclukey a
      rw [show system.home (.send a b m) = a from rfl, hself] at hrun
      exact hrun ▸ .opening hne hm ht
  | @opening a b m hne hm =>
      obtain ⟨rfl, hready⟩ := hallows
      have hself : (s₀.process a).selfclukey = a := h.selfclukey a
      have hresume : (connected ⟨b⟩ m (.ok .done)).resume (s₀.process a)
          = ⟨[.data ⟨b⟩ a m], s₀.process a, .returned ()⟩ := by
        have hdata : (connected ⟨b⟩ m (.ok .done)).resume (s₀.process a)
            = ⟨[.data ⟨b⟩ (s₀.process a).selfclukey m], s₀.process a, .returned ()⟩ := rfl
        rwa [hself] at hdata
      rw [run_returned (j := .send a b m) (s := s₀) hresume]
      apply Moves.flushed hne hm ht hready
      apply hcareful _ _ _ ht rfl
      rw [Job.message, if_pos rfl]
      exact nofun
  | @creating a b k =>
      obtain ⟨h, rfl⟩ := hallows
      have hrun := System.run_waiting (N := system) (n := n) (j := .open b a k) (s := s₀)
        (c := agentCreated a (.ok (.handle h))) rfl
      exact hrun ▸ .created h ht
  | @starting a b k h conf hready =>
      obtain rfl := hallows
      rw [run_returned (j := .open b a k) (s := s₀) rfl]
      exact .finished hready ht

/-- What a careful step does. -/
theorem moves_of_step (h : Core s) {l : System.Step Event} (hcareful : Careful s l)
    (hstep : system.step s l = some s') :
  Moves s l s'
  := by
  obtain ⟨e, w, rfl, hw, rfl⟩ | ⟨e, w, j, rfl, hw, rfl⟩ | ⟨n, t, r, w, rfl, ht, hr, rfl⟩ :=
    system.step_cases hstep
  · cases e with
    | send a b m => cases hw
    | serve n => exact (moves_of_serve hw).2
    | deliver c =>
        obtain ⟨x, rest, -, -, hj⟩ := react_deliver hw
        cases hj
  · cases e with
    | send a b m =>
        obtain ⟨rfl, hj⟩ := Prod.mk.inj (Option.some.inj hw)
        obtain rfl := Option.some.inj hj
        exact moves_of_send h hcareful
    | serve n => cases (moves_of_serve hw).1
    | deliver c =>
        obtain ⟨x, rest, hlink, rfl, hj⟩ := react_deliver hw
        obtain rfl := Option.some.inj hj
        exact moves_of_deliver h hlink
  · obtain ⟨⟨r', slots⟩, hcollect, heq⟩ := Option.map_eq_some_iff.mp hr
    obtain ⟨hanswered, rfl⟩ := Slots.collect_eq_some.mp hcollect
    cases heq
    exact moves_of_wake h ht hanswered hcareful

end Step

/-! ### Steps keep what holds in every state -/

section Kept

variable {s s' : State} {l : System.Step Event} {process process' : String → Process}

theorem Form.mono (hle : ∀ a b, Ready process a b → Ready process' a b) {t : Suspended}
    (h : Form process t) :
  Form process' t
  := by
  cases h with
  | querying hne hm => exact .querying hne hm
  | proxying hne hm => exact .proxying hne hm
  | opening hne hm => exact .opening hne hm
  | creating n => exact .creating n
  | starting n h conf hready => exact .starting n h conf (hle _ _ hready)

theorem Query.Allows.mono (hle : ∀ a b, Ready process a b → Ready process' a b) {q : Query}
    {r : Except String Answer} (h : q.Allows process r) :
  q.Allows process' r
  := by
  cases q with
  | «open» p clukey => exact ⟨h.1, hle _ _ h.2⟩
  | _ => exact h

theorem Fits.mono (hle : ∀ a b, Ready process a b → Ready process' a b) {t : Suspended}
    {x : Slot interface} (h : Fits process t x) :
  Fits process' t x
  := by
  cases x with
  | asked q => exact h
  | answered r => exact Query.Allows.mono hle h

theorem Packet.Travels.mono (hle : ∀ a b, Ready process a b → Ready process' a b)
    {c : String × String} {x : Packet} (h : x.Travels process c) :
  x.Travels process' c
  := by
  cases x with
  | «open» n clukey => exact h
  | data clukey m => exact ⟨h.1, h.2.1, hle _ _ h.2.2⟩

/-- A node that has an agent keeps having one when a proxy is stored. -/
theorem ready_setCluster (process : String → Process) (a clukey : String) (p : Proxy) (x y : String) :
  Ready (Function.update process a ((process a).setCluster clukey p)) x y ↔ Ready process x y
  := by
  unfold Ready
  rcases eq_or_ne y a with rfl | hne
  · rw [Function.update_self]
    rfl
  · rw [Function.update_of_ne hne]

theorem ready_setAgent (process : String → Process) {a b : String} {h : ℕ} {x y : String}
    (hready : Ready process x y) :
  Ready (Function.update process b ((process b).setAgent a h)) x y
  := by
  unfold Ready at hready ⊢
  rcases eq_or_ne y b with rfl | hne
  · rw [Function.update_self, Process.setAgent]
    dsimp only
    rcases eq_or_ne x a with rfl | hne
    · rw [Function.update_self]
      exact nofun
    · rwa [Function.update_of_ne hne]
  · rwa [Function.update_of_ne hne]

/-- A node to which an agent is given has one. -/
theorem ready_setAgent_self (process : String → Process) (a b : String) (h : ℕ) :
  Ready (Function.update process b ((process b).setAgent a h)) a b
  := by
  unfold Ready
  rw [Function.update_self, Process.setAgent]
  dsimp only
  rw [Function.update_self]
  exact nofun

@[simp]
theorem Network.reply_link (w : Network) (p : Proxy) (clukey : String) (n : ℕ) :
  (w.reply p clukey n).link = w.link
  := by
  unfold Network.reply
  split <;> rfl

@[simp]
theorem Network.reply_passed (w : Network) (p : Proxy) (clukey : String) (n : ℕ) :
  (w.reply p clukey n).passed = w.passed
  := by
  unfold Network.reply
  split <;> rfl

theorem mem_transmit {w : Network} {c c' : String × String} {x y : Packet} :
  y ∈ (w.transmit c x).link c' ↔ y ∈ w.link c' ∨ c' = c ∧ y = x
  := by
  unfold Network.transmit
  dsimp only
  rcases eq_or_ne c' c with rfl | hne
  · rw [Function.update_self, List.mem_append, List.mem_singleton]
    simp
  · rw [Function.update_of_ne hne]
    simp [hne]

theorem mem_of_mem_pop {w : Network} {c c' : String × String} {x y : Packet} {rest : List Packet}
    (hlink : w.link c = x :: rest) (h : y ∈ (w.pop c rest).link c') :
  y ∈ w.link c'
  := by
  unfold Network.pop at h
  dsimp only at h
  rcases eq_or_ne c' c with rfl | hne
  · rw [Function.update_self] at h
    rw [hlink]
    exact List.mem_cons_of_mem x h
  · rwa [Function.update_of_ne hne] at h

/-- A suspended coroutine is answered when the agent at the other side has started. -/
theorem held_reply {started : List Job} {waiting : ℕ → Option Suspended} {w : Network} {a b : String}
    (h : System.Held (Form process) (Fits process) started waiting w.slots)
    (hready : Ready process a b) (k : ℕ) :
  System.Held (Form process) (Fits process) started waiting (w.reply ⟨b⟩ a k).slots
  := by
  unfold Network.reply
  split
  · next hasked =>
      obtain ⟨t, ht, hfits⟩ := h.fits k _ (Slots.asked_eq_some.mp hasked)
      have hquery : t.query = .open ⟨b⟩ a := hfits.symm
      apply h.answer ht
      change t.query.Allows process _
      rw [hquery]
      exact ⟨rfl, hready⟩
  · exact h

theorem held_moves (h : Core s) (hmoves : Moves s l s') :
  System.Held (Form s'.process) (Fits s'.process) s'.started s'.waiting s'.network.slots
  := by
  cases hmoves with
  | answered services hasked hr hopen =>
      obtain ⟨t, ht, hfits⟩ := h.held.fits _ _ hasked
      obtain rfl : _ = t.query := hfits
      exact h.held.answer ht hr
  | passedLocal hw =>
      obtain rfl | ⟨k, rfl⟩ := hw
      · exact h.held.start _
      · exact h.held.start _
  | sent hne hm hready hnone => exact h.held.start _
  | queried hne hm =>
      exact (h.held.start _).call List.getElem?_concat_length (.querying hne hm) rfl
  | opened hlink => exact (h.held.start _).call List.getElem?_concat_length (.creating _) rfl
  | passed k hlink => exact h.held.start _
  | proxied hne hm hn =>
      have hj := h.held.started _ _ hn
      exact (h.held.take _).call hj (.proxying hne hm) rfl
  | @opening a b m n hne hm hn =>
      have hj := h.held.started _ _ hn
      have hle := fun x y => (ready_setCluster s.process a b ⟨b⟩ x y).mpr
      let t : Suspended := ⟨.send a b m, .open ⟨b⟩ a, connected ⟨b⟩ m⟩
      have hheld := (h.held.take n).call (t := t) hj (.opening hne hm) rfl
      exact hheld.mono (fun _ ht => ht.mono hle) (fun _ _ hx => hx.mono hle)
  | @flushed a b m n hne hm hn hready hfirst => exact h.held.release n
  | @created a b n k x hn =>
      have hj := h.held.started _ _ hn
      have hle := fun u v => ready_setAgent s.process (a := a) (b := b) (h := x) (x := u) (y := v)
      have hheld := (h.held.take n).mono (fun _ ht => ht.mono hle) (fun _ _ hx => hx.mono hle)
      exact hheld.call hj (.starting _ _ _ (ready_setAgent_self _ _ _ _)) rfl
  | @finished a b n k x conf hready hn =>
      exact held_reply (w := s.network.take n) (h.held.release n) hready k

theorem selfclukey_moves (h : Core s) (hmoves : Moves s l s') (x : String) :
  (s'.process x).selfclukey = x
  := by
  have hself := h.selfclukey x
  cases hmoves with
  | @opening a b m n hne hm hn =>
      dsimp only
      rcases eq_or_ne x a with rfl | hne
      · rwa [Function.update_self]
      · rwa [Function.update_of_ne hne]
  | @created a b n k y hn =>
      dsimp only
      rcases eq_or_ne x b with rfl | hne
      · rwa [Function.update_self]
      · rwa [Function.update_of_ne hne]
  | _ => exact hself

theorem proxies_moves (h : Core s) (hmoves : Moves s l s') (x y : String) (p : Proxy)
    (hp : (s'.process x).clustertab y = some p) :
  p = ⟨y⟩
  := by
  cases hmoves with
  | @opening a b m n hne hm hn =>
      dsimp only at hp
      rcases eq_or_ne x a with rfl | hne
      · rw [Function.update_self, Process.setCluster] at hp
        dsimp only at hp
        rcases eq_or_ne y b with rfl | hne
        · rw [Function.update_self] at hp
          exact (Option.some.inj hp).symm
        · rw [Function.update_of_ne hne] at hp
          exact h.proxies x y p hp
      · rw [Function.update_of_ne hne] at hp
        exact h.proxies x y p hp
  | @created a b n k z hn =>
      dsimp only at hp
      rcases eq_or_ne x b with rfl | hne
      · rw [Function.update_self] at hp
        exact h.proxies x y p hp
      · rw [Function.update_of_ne hne] at hp
        exact h.proxies x y p hp
  | _ => exact h.proxies x y p hp

theorem packets_moves (h : Core s) (hmoves : Moves s l s') (c : String × String) (x : Packet)
    (hx : x ∈ s'.network.link c) :
  x.Travels s'.process c
  := by
  cases hmoves with
  | answered services hasked hr hopen => exact h.packets c x hx
  | passedLocal hw =>
      obtain rfl | ⟨k, rfl⟩ := hw
      · exact h.packets c x hx
      · exact h.packets c x hx
  | sent hne hm hready hnone =>
      obtain hx | ⟨rfl, rfl⟩ := mem_transmit.mp hx
      · exact h.packets c x hx
      · exact ⟨rfl, hm, hready⟩
  | queried hne hm => exact h.packets c x hx
  | opened hlink => exact h.packets c x (mem_of_mem_pop hlink hx)
  | passed k hlink => exact h.packets c x (mem_of_mem_pop hlink hx)
  | proxied hne hm hn => exact h.packets c x hx
  | opening hne hm hn =>
      obtain hx | ⟨rfl, rfl⟩ := mem_transmit.mp hx
      · exact (h.packets c x hx).mono fun u v => (ready_setCluster s.process _ _ _ u v).mpr
      · rfl
  | @flushed a b m n hne hm hn hready hfirst =>
      obtain hx | ⟨rfl, rfl⟩ := (mem_transmit (w := s.network.take n)).mp hx
      · exact h.packets c x hx
      · exact ⟨rfl, hm, hready⟩
  | created k hn => exact (h.packets c x hx).mono fun u v => ready_setAgent s.process
  | finished hready hn =>
      dsimp only at hx
      rw [Network.reply_link] at hx
      exact h.packets c x hx

/-- The messages that wait are as before when the coroutine `n` keeps what it waits with. -/
theorem messageAt_eq {waiting : ℕ → Option Suspended} {c : String × String} {n : ℕ}
    {x : Option Suspended} (h : (x.bind fun t => t.job.message c) = messageAt waiting c n) :
  messageAt (Function.update waiting n x) c = messageAt waiting c
  := by
  rw [messageAt_update, h, Function.update_eq_self]

theorem messageAt_of_waiting {waiting : ℕ → Option Suspended} {n : ℕ} {t : Suspended}
    (h : waiting n = some t) (c : String × String) :
  messageAt waiting c n = t.job.message c
  := by
  rw [messageAt, h, Option.bind_some]

theorem message_send (a b : String) (m : Lua.Value) (c : String × String) :
  (Job.send a b m).message c = if (a, b) = c then some m else none
  := rfl

theorem connected_moves (h : Core s) (hmoves : Moves s l s') (x y : String)
    (hxy : (s'.process x).clustertab y ≠ none) :
  (∃ n, messageAt s'.waiting (x, y) n ≠ none) ∨ Ready s'.process x y
  := by
  cases hmoves with
  | queried hne hm =>
      obtain ⟨k, hk⟩ | hready := h.connected x y hxy
      · refine .inl ⟨k, ?_⟩
        dsimp only
        rw [messageAt_update]
        rcases eq_or_ne k s.started.length with rfl | hne
        · rw [messageAt, h.held.fresh (Nat.le_refl _)] at hk
          exact absurd rfl hk
        · rwa [Function.update_of_ne hne]
      · exact .inr hready
  | opened hlink =>
      dsimp only
      rw [messageAt_eq]
      · exact h.connected x y hxy
      · rw [messageAt, h.held.fresh (Nat.le_refl _)]
        rfl
  | proxied hne hm hn =>
      dsimp only
      rw [messageAt_eq]
      · exact h.connected x y hxy
      · exact (messageAt_of_waiting hn _).symm
  | @opening a b m n hne hm hn =>
      dsimp only at hxy ⊢
      rw [messageAt_eq, ready_setCluster]
      swap
      · exact (messageAt_of_waiting hn _).symm
      rcases eq_or_ne (x, y) (a, b) with heq | hneq
      · obtain ⟨rfl, rfl⟩ := Prod.mk.inj heq
        refine .inl ⟨n, ?_⟩
        rw [messageAt_of_waiting hn, message_send, if_pos rfl]
        exact nofun
      · apply h.connected x y
        rcases eq_or_ne x a with rfl | hx
        · have hy : y ≠ b := by
            rintro rfl
            exact hneq rfl
          rw [Function.update_self, Process.setCluster] at hxy
          dsimp only at hxy
          rwa [Function.update_of_ne hy] at hxy
        · rwa [Function.update_of_ne hx] at hxy
  | @flushed a b m n hne hm hn hready hfirst =>
      rcases eq_or_ne (a, b) (x, y) with heq | hneq
      · obtain ⟨rfl, rfl⟩ := Prod.mk.inj heq
        exact .inr hready
      · dsimp only
        rw [messageAt_eq]
        · exact h.connected x y hxy
        · rw [messageAt_of_waiting hn, message_send, if_neg hneq]
          rfl
  | @created a b n k z hn =>
      dsimp only at hxy ⊢
      rw [messageAt_eq]
      swap
      · exact (messageAt_of_waiting hn _).symm
      have hxy' : (s.process x).clustertab y ≠ none := by
        rcases eq_or_ne x b with rfl | hne
        · rwa [Function.update_self] at hxy
        · rwa [Function.update_of_ne hne] at hxy
      exact (h.connected x y hxy').imp id (ready_setAgent s.process)
  | finished hready hn =>
      dsimp only
      rw [messageAt_eq]
      · exact h.connected x y hxy
      · exact (messageAt_of_waiting hn _).symm
  | _ => exact h.connected x y hxy

/-- A careful step keeps what the services know of each other. -/
theorem core_moves (h : Core s) (hmoves : Moves s l s') :
  Core s'
  := by
  constructor
  · exact held_moves h hmoves
  · exact selfclukey_moves h hmoves
  · exact proxies_moves h hmoves
  · exact packets_moves h hmoves
  · exact connected_moves h hmoves

/-! ### Order -/

/-- What has been passed, what is on the link and what has not been sent yet are, in this order, what
`CMD.send` has been called with. -/
def InOrder (s : State) (c : String × String) : Prop :=
  passed s c ++ inFlight s c ++ pending s c = sent s c

theorem pending_append (started : List Job) (j : Job) (waiting : ℕ → Option Suspended)
    (x : Option Suspended) (c : String × String) :
  (List.range (started ++ [j]).length).filterMap
      (messageAt (Function.update waiting started.length x) c)
    = (List.range started.length).filterMap (messageAt waiting c)
      ++ (x.bind fun t => t.job.message c).toList
  := by
  rw [List.length_append, messageAt_update]
  exact filterMap_range_succ_update _ _ _

theorem sent_append (started : List Job) (j : Job) (c : String × String) :
  (started ++ [j]).filterMap (Job.message c)
    = started.filterMap (Job.message c) ++ (j.message c).toList
  := by
  rw [List.filterMap_append]
  cases hj : j.message c with
  | none => rw [List.filterMap_cons_none hj]; rfl
  | some m => rw [List.filterMap_cons_some hj]; rfl

theorem inFlight_transmit (w : Network) (c c' : String × String) (x : Packet) :
  ((w.transmit c' x).link c).filterMap Packet.message
    = (w.link c).filterMap Packet.message ++ if c' = c then x.message.toList else []
  := by
  unfold Network.transmit
  dsimp only
  rcases eq_or_ne c' c with rfl | hne
  · rw [Function.update_self, List.filterMap_append, if_pos rfl]
    cases x <;> rfl
  · rw [Function.update_of_ne hne.symm, if_neg hne, List.append_nil]

theorem passed_pass (w : Network) (c c' : String × String) (h : ℕ) (m : Lua.Value) :
  ((w.pass c' h m).passed c).map Prod.snd
    = (w.passed c).map Prod.snd ++ if c' = c then [m] else []
  := by
  unfold Network.pass
  dsimp only
  rcases eq_or_ne c' c with rfl | hne
  · rw [Function.update_self, List.map_append, if_pos rfl]
    rfl
  · rw [Function.update_of_ne hne.symm, if_neg hne, List.append_nil]

theorem inFlight_pop {w : Network} {c' : String × String} {x : Packet} {rest : List Packet}
    (hlink : w.link c' = x :: rest) (c : String × String) :
  (w.link c).filterMap Packet.message
    = (if c' = c then x.message.toList else []) ++ ((w.pop c' rest).link c).filterMap Packet.message
  := by
  unfold Network.pop
  dsimp only
  rcases eq_or_ne c' c with rfl | hne
  · rw [Function.update_self, hlink, if_pos rfl]
    cases x <;> rfl
  · rw [Function.update_of_ne hne.symm, if_neg hne, List.nil_append]

/-- A careful step keeps the order of the messages from one node to another. -/
theorem inOrder_moves (h : Core s) (hmoves : Moves s l s') {c : String × String} (hc : c.1 ≠ c.2)
    (horder : InOrder s c) :
  InOrder s' c
  := by
  have hfresh : Function.update s.waiting s.started.length none = s.waiting := by
    rw [← h.held.fresh (Nat.le_refl _), Function.update_eq_self]
  have hlocal : ∀ a, (a, a) ≠ c := by
    rintro a rfl
    exact hc rfl
  unfold InOrder passed inFlight pending sent at horder ⊢
  cases hmoves with
  | answered services hasked hr hopen => exact horder
  | @passedLocal a m w hw =>
      have hpassed : (w.passed c).map Prod.snd = (s.network.passed c).map Prod.snd := by
        obtain rfl | ⟨k, rfl⟩ := hw
        · rfl
        · rw [passed_pass, if_neg (hlocal a), List.append_nil]
      have hlink : w.link = s.network.link := by
        obtain rfl | ⟨k, rfl⟩ := hw <;> rfl
      dsimp only
      rw [hpassed, hlink, sent_append, message_send, if_neg (hlocal a), ← horder, ← hfresh,
        pending_append, hfresh]
      simp
  | @sent a b m hne hm hready hnone =>
      dsimp only
      rw [inFlight_transmit, sent_append, message_send, ← horder, ← hfresh, pending_append, hfresh]
      rcases eq_or_ne (a, b) c with rfl | hneq
      · have hpending : (List.range s.started.length).filterMap (messageAt s.waiting (a, b)) = [] :=
          List.filterMap_eq_nil_iff.mpr fun k _ => hnone k
        rw [hpending]
        simp [Packet.message, Network.transmit]
      · simp [hneq, Network.transmit]
  | queried hne hm =>
      dsimp only
      rw [pending_append, sent_append, ← horder]
      simp [Network.ask]
  | opened hlink =>
      dsimp only
      rw [pending_append, sent_append, ← horder, inFlight_pop hlink c]
      simp [Network.ask, Network.pop, Packet.message, Job.message]
  | @passed a b m rest k hlink =>
      dsimp only
      rw [passed_pass, sent_append, ← horder, inFlight_pop hlink c, ← hfresh, pending_append, hfresh]
      rcases eq_or_ne (a, b) c with rfl | hneq
      · simp [Network.pop, Network.pass, Packet.message, Job.message]
      · simp [hneq, Network.pop, Network.pass, Job.message]
  | proxied hne hm hn =>
      dsimp only
      rw [messageAt_eq]
      · exact horder
      · exact (messageAt_of_waiting hn _).symm
  | @opening a b m n hne hm hn =>
      have hlink := inFlight_transmit (s.network.take n) c (a, b) (.open n a)
      dsimp only [Network.ask]
      rw [messageAt_eq, hlink]
      · simpa [Packet.message, Network.take, Network.transmit] using horder
      · exact (messageAt_of_waiting hn _).symm
  | @flushed a b m n hne hm hn hready hfirst =>
      dsimp only
      rw [inFlight_transmit, ← horder]
      rcases eq_or_ne (a, b) c with rfl | hneq
      · have hm' : messageAt s.waiting (a, b) n = some m := by
          rw [messageAt_of_waiting hn, message_send, if_pos rfl]
        rw [filterMap_range_update (h.held.lt_length hn) hm' hfirst, messageAt_update]
        simp [Packet.message, Network.take, Network.transmit]
      · rw [messageAt_eq]
        · simp [hneq, Network.take, Network.transmit]
        · rw [messageAt_of_waiting hn, message_send, if_neg hneq]
          rfl
  | created k hn =>
      dsimp only
      rw [messageAt_eq]
      · exact horder
      · exact (messageAt_of_waiting hn _).symm
  | finished hready hn =>
      dsimp only
      rw [messageAt_eq, Network.reply_link, Network.reply_passed]
      · exact horder
      · exact (messageAt_of_waiting hn _).symm

/-! ### Progress -/

/-- A call of another node that is on the link or being served stays so when nothing is taken off a link
and no coroutine ends. -/
theorem Served.opens_mono (h : Served s) {link : String × String → List Packet}
    {waiting : ℕ → Option Suspended} (hlink : ∀ c x, x ∈ s.network.link c → x ∈ link c)
    (hwaiting : ∀ k t, s.waiting k = some t → ∃ t', waiting k = some t' ∧ t'.job = t.job)
    {n : ℕ} {p : Proxy} {clukey : String}
    (hasked : s.network.slots n = some (.asked (.open p clukey))) :
  Packet.open n clukey ∈ link (clukey, p.node) ∨
    ∃ k t, waiting k = some t ∧ t.job = .open p.node clukey n
  := by
  obtain hmem | ⟨k, t, ht, hjob⟩ := h.opens n p clukey hasked
  · exact .inl (hlink _ _ hmem)
  · obtain ⟨t', ht', hjob'⟩ := hwaiting k t ht
    exact .inr ⟨k, t', ht', hjob'.trans hjob⟩

/-- A coroutine that is suspended stays so when another one calls. -/
theorem suspended_update {waiting : ℕ → Option Suspended} {n : ℕ} {t' : Suspended}
    (hn : ∀ t, waiting n = some t → t'.job = t.job) (k : ℕ) (t : Suspended)
    (ht : waiting k = some t) :
  ∃ t'', Function.update waiting n (some t') k = some t'' ∧ t''.job = t.job
  := by
  rcases eq_or_ne k n with rfl | hne
  · exact ⟨t', Function.update_self _ _ _, hn t ht⟩
  · exact ⟨t, (Function.update_of_ne hne _ _).trans ht, rfl⟩

theorem called_ask (h : Served s) {n : ℕ} {x : Option Suspended} {q : Query} {slots : Slots interface}
    (hslots : ∀ k, k ≠ n → slots k = s.network.slots k) (k : ℕ)
    (hk : Function.update s.waiting n x k ≠ none) :
  slots.ask n q k ≠ none
  := by
  unfold Slots.ask
  rcases eq_or_ne k n with rfl | hne
  · rw [Function.update_self]
    exact nofun
  · rw [Function.update_of_ne hne] at hk ⊢
    rw [hslots k hne]
    exact h.called k hk

theorem reply_ne_none {w : Network} {k : ℕ} (hk : w.slots k ≠ none) (p : Proxy) (clukey : String)
    (n : ℕ) :
  (w.reply p clukey n).slots k ≠ none
  := by
  unfold Network.reply
  split
  · dsimp only [Network.answer, Slots.answer]
    rcases eq_or_ne k n with rfl | hne
    · rw [Function.update_self]
      exact nofun
    · rwa [Function.update_of_ne hne]
  · exact hk

/-- A call that is waiting for its answer is not the one that has been answered. -/
theorem asked_of_reply {w : Network} {k n : ℕ} {q : Query} {p : Proxy} {clukey : String}
    (hk : (w.reply p clukey n).slots k = some (.asked q)) :
  w.slots k = some (.asked q) ∧ ¬ (k = n ∧ q = .open p clukey)
  := by
  unfold Network.reply at hk
  split at hk
  · dsimp only [Network.answer, Slots.answer] at hk
    rcases eq_or_ne k n with rfl | hne
    · rw [Function.update_self] at hk
      cases hk
    · rw [Function.update_of_ne hne] at hk
      exact ⟨hk, fun h => hne h.1⟩
  · next hnot =>
      use hk
      rintro ⟨rfl, rfl⟩
      exact hnot (Slots.asked_eq_some.mpr hk)

/-- A call that has been asked is the one that is asked now, or another one. -/
theorem asked_of_ask {w : Network} {k n : ℕ} {q q' : Query} (hk : (w.ask n q).slots k = some (.asked q'))
    (hne : q ≠ q') :
  k ≠ n ∧ w.slots k = some (.asked q')
  := by
  dsimp only [Network.ask, Slots.ask] at hk
  rcases eq_or_ne k n with rfl | hkn
  · rw [Function.update_self] at hk
    exact absurd (Slot.asked.inj (Option.some.inj hk)) hne
  · rw [Function.update_of_ne hkn] at hk
    exact ⟨hkn, hk⟩

theorem slots_take {w : Network} {k n : ℕ} (hne : k ≠ n) :
  (w.take n).slots k = w.slots k
  := Function.update_of_ne hne _ _

/-- What is on a link is taken off it or stays there. -/
theorem mem_popped {w : Network} {c c' : String × String} {x y : Packet} {rest : List Packet}
    (hlink : w.link c = x :: rest) (hmem : y ∈ w.link c') :
  c' = c ∧ y = x ∨ y ∈ (w.pop c rest).link c'
  := by
  dsimp only [Network.pop]
  rcases eq_or_ne c' c with rfl | hne
  · rw [hlink] at hmem
    rw [Function.update_self]
    exact (List.mem_cons.mp hmem).imp_left (⟨rfl, ·⟩)
  · rw [Function.update_of_ne hne]
    exact .inr hmem

/-- A coroutine that goes on with its job is still suspended, and so are the others. -/
theorem suspended_goes_on {waiting : ℕ → Option Suspended} {n : ℕ} {t t' : Suspended} (hn : waiting n = some t)
    (hjob : t'.job = t.job) (k : ℕ) (u : Suspended) (hu : waiting k = some u) :
  ∃ u', Function.update waiting n (some t') k = some u' ∧ u'.job = u.job
  := by
  apply suspended_update _ k u hu
  intro t'' ht''
  obtain rfl := Option.some.inj (hn.symm.trans ht'')
  exact hjob

/-- A job that is not that of the coroutine that ends goes on to be served. -/
theorem suspended_ends {waiting : ℕ → Option Suspended} {n i : ℕ} {t u : Suspended} (hn : waiting n = some t)
    (hne : u.job ≠ t.job) (hu : waiting i = some u) :
  Function.update waiting n none i = some u
  := by
  rw [Function.update_of_ne _, hu]
  rintro rfl
  obtain rfl := Option.some.inj (hn.symm.trans hu)
  exact hne rfl

/-- A careful step leaves every suspended coroutine with a call, and the calls of other nodes on the links
or being served. -/
theorem served_moves (h : Core s) (hs : Served s) (hmoves : Moves s l s') :
  Served s'
  := by
  have hfresh : s.waiting s.started.length = none := h.held.fresh (Nat.le_refl _)
  have hstart : ∀ t' t : Suspended, s.waiting s.started.length = some t → t'.job = t.job := by
    intro t' t ht
    cases hfresh.symm.trans ht
  cases hmoves with
  | @answered n q r services hasked hr hopen =>
      constructor
      · intro k hk
        dsimp only [Network.answer, Slots.answer]
        rcases eq_or_ne k n with rfl | hne
        · rw [Function.update_self]
          exact nofun
        · rw [Function.update_of_ne hne]
          exact hs.called k hk
      · intro k p clukey hk
        dsimp only [Network.answer, Slots.answer] at hk
        rcases eq_or_ne k n with rfl | hne
        · rw [Function.update_self] at hk
          cases hk
        · rw [Function.update_of_ne hne] at hk
          exact hs.opens k p clukey hk
  | passedLocal hw =>
      obtain rfl | ⟨k, rfl⟩ := hw
      · exact ⟨hs.called, hs.opens⟩
      · exact ⟨hs.called, hs.opens⟩
  | sent hne hm hready hnone =>
      use hs.called
      intro k p clukey hk
      exact hs.opens_mono (fun c x hx => mem_transmit.mpr (.inl hx)) (fun k t ht => ⟨t, ht, rfl⟩) hk
  | queried hne hm =>
      use called_ask hs fun k hk => rfl
      intro k p clukey hk
      obtain ⟨-, hasked⟩ := asked_of_ask hk nofun
      exact hs.opens_mono (fun c x hx => hx) (suspended_update (hstart _)) hasked
  | @opened a b n rest hlink =>
      use called_ask hs fun k hk => rfl
      intro k p clukey hk
      obtain ⟨-, hasked⟩ := asked_of_ask hk nofun
      obtain hmem | ⟨i, t, ht, hjob⟩ := hs.opens k p clukey hasked
      · obtain ⟨hc, hx⟩ | hmem := mem_popped hlink hmem
        · obtain ⟨rfl, rfl⟩ := Prod.mk.inj hc
          obtain ⟨rfl, -⟩ := Packet.open.inj hx
          exact .inr ⟨_, _, Function.update_self _ _ _, rfl⟩
        · exact .inl hmem
      · obtain ⟨t', ht', hjob'⟩ := suspended_update (hstart _) i t ht
        exact .inr ⟨i, t', ht', hjob'.trans hjob⟩
  | @passed a b m rest j hlink =>
      use hs.called
      intro k p clukey hk
      obtain hmem | hserved := hs.opens k p clukey hk
      · obtain ⟨-, hx⟩ | hmem := mem_popped hlink hmem
        · cases hx
        · exact .inl hmem
      · exact .inr hserved
  | @proxied a b m n hne hm hn =>
      use called_ask hs fun k hk => slots_take hk
      intro k p clukey hk
      obtain ⟨hkn, hasked⟩ := asked_of_ask hk nofun
      rw [slots_take hkn] at hasked
      apply hs.opens_mono (fun c x hx => hx) (suspended_goes_on hn _) hasked
      rfl
  | @opening a b m n hne hm hn =>
      use called_ask hs fun k hk => slots_take hk
      intro k p clukey hk
      by_cases hq : Query.open ⟨b⟩ a = .open p clukey
      · obtain ⟨rfl, rfl⟩ := Query.open.inj hq
        rcases eq_or_ne k n with rfl | hkn
        · exact .inl (mem_transmit.mpr (.inr ⟨rfl, rfl⟩))
        · dsimp only [Network.ask, Slots.ask, Network.transmit] at hk
          rw [Function.update_of_ne hkn, slots_take hkn] at hk
          apply hs.opens_mono (fun c x hx => mem_transmit.mpr (.inl hx)) (suspended_goes_on hn _) hk
          rfl
      · obtain ⟨hkn, hasked⟩ := asked_of_ask hk hq
        dsimp only [Network.transmit] at hasked
        rw [slots_take hkn] at hasked
        apply hs.opens_mono (fun c x hx => mem_transmit.mpr (.inl hx)) (suspended_goes_on hn _) hasked
        rfl
  | @flushed a b m n hne hm hn hready hfirst =>
      constructor
      · intro k hk
        dsimp only [Network.transmit, Network.take] at hk ⊢
        rcases eq_or_ne k n with rfl | hne
        · rw [Function.update_self] at hk
          exact absurd rfl hk
        · rw [Function.update_of_ne hne] at hk ⊢
          exact hs.called k hk
      · intro k p clukey hk
        dsimp only [Network.transmit, Network.take] at hk
        rcases eq_or_ne k n with rfl | hne
        · rw [Function.update_self] at hk
          cases hk
        · rw [Function.update_of_ne hne] at hk
          obtain hmem | ⟨i, t, ht, hjob⟩ := hs.opens k p clukey hk
          · exact .inl (mem_transmit.mpr (.inl hmem))
          · exact .inr ⟨i, t, suspended_ends hn (hjob ▸ nofun) ht, hjob⟩
  | @created a b n j x hn =>
      use called_ask hs fun k hk => slots_take hk
      intro k p clukey hk
      obtain ⟨hkn, hasked⟩ := asked_of_ask hk nofun
      rw [slots_take hkn] at hasked
      apply hs.opens_mono (fun c x hx => hx) (suspended_goes_on hn _) hasked
      rfl
  | @finished a b n j x conf hready hn =>
      constructor
      · intro k hk
        dsimp only at hk ⊢
        rcases eq_or_ne k n with rfl | hne
        · rw [Function.update_self] at hk
          exact absurd rfl hk
        · rw [Function.update_of_ne hne] at hk
          exact reply_ne_none ((slots_take hne).trans_ne (hs.called k hk)) ⟨b⟩ a j
      · intro k p clukey hk
        obtain ⟨htaken, hnot⟩ := asked_of_reply hk
        have hne : k ≠ n := by
          rintro rfl
          cases (Function.update_self _ _ _).symm.trans htaken
        obtain hmem | ⟨i, t, ht, hjob⟩ := hs.opens k p clukey ((slots_take hne).symm.trans htaken)
        · rw [Network.reply_link]
          exact .inl hmem
        · refine .inr ⟨i, t, suspended_ends hn ?_ ht, hjob⟩
          rw [hjob]
          intro heq
          cases heq
          exact hnot ⟨rfl, rfl⟩

/-- Where nothing happens any more, nothing is on a link. -/
theorem Quiet.link (h : Quiet s) (c : String × String) :
  s.network.link c = []
  := by
  have hnone := h (.event (.deliver c)) nofun
  cases hlink : s.network.link c with
  | nil => rfl
  | cons x rest =>
      have hreact : react (.deliver c) s.network = some (s.network.pop c rest, some (x.job c.2)) := by
        dsimp only [react]
        rw [hlink]
        rfl
      have hstep := Option.map_eq_none_iff.mp hnone
      cases hreact.symm.trans hstep

/-- Where nothing happens any more, a suspended coroutine waits for another node. -/
theorem Quiet.opens (hquiet : Quiet s) (h : Core s) (hs : Served s) {n : ℕ} {t : Suspended}
    (ht : s.waiting n = some t) :
  ∃ p clukey, t.query = .open p clukey ∧ s.network.slots n = some (.asked (.open p clukey))
  := by
  obtain ⟨x, hx⟩ := Option.ne_none_iff_exists'.mp (hs.called n (by rw [ht]; exact nofun))
  cases x with
  | answered r =>
      have hnone := hquiet (.wake n) nofun
      have hcollect := Option.bind_eq_none_iff.mp hnone t ht
      have hslot := Option.map_eq_none_iff.mp (Option.map_eq_none_iff.mp hcollect)
      cases (Slots.collect_eq_some.mpr ⟨hx, rfl⟩).symm.trans hslot
  | asked q =>
      obtain ⟨t', ht', hfits⟩ := h.held.fits n _ hx
      cases ht.symm.trans ht'
      obtain rfl : q = t.query := hfits
      have hnone := hquiet (.event (.serve n)) nofun
      have hreact := Option.map_eq_none_iff.mp hnone
      have hserve := Option.bind_eq_none_iff.mp hreact _ (Slots.asked_eq_some.mpr hx)
      cases hquery : t.query with
      | «open» p clukey =>
          rw [hquery] at hx
          exact ⟨p, clukey, rfl, hx⟩
      | _ =>
          rw [hquery] at hserve
          cases hserve

/-- Where nothing happens any more, no coroutine is suspended. -/
theorem Quiet.waiting (hquiet : Quiet s) (h : Core s) (hs : Served s) (n : ℕ) :
  s.waiting n = none
  := by
  cases ht : s.waiting n with
  | none => rfl
  | some t =>
      obtain ⟨p, clukey, -, hasked⟩ := hquiet.opens h hs ht
      obtain hmem | ⟨k, t', ht', hjob⟩ := hs.opens n p clukey hasked
      · rw [hquiet.link] at hmem
        cases hmem
      · obtain ⟨p', clukey', hquery, -⟩ := hquiet.opens h hs ht'
        cases h.held.form k t' ht' with
        | opening hne hm => cases hjob
        | _ => cases hquery

end Kept

theorem Started.core {s : State} (h : Started s) :
  Core s
  := by
  constructor
  · constructor
    · intro n t ht
      cases (h.waiting n).symm.trans ht
    · intro n t ht
      cases (h.waiting n).symm.trans ht
    · intro n x hx
      cases (h.slots n).symm.trans hx
  · exact h.selfclukey
  · intro a b p hp
    cases (h.clustertab a b).symm.trans hp
  · intro c x hx
    rw [h.link] at hx
    cases hx
  · intro a b hab
    exact absurd (h.clustertab a b) hab

theorem Started.served {s : State} (h : Started s) :
  Served s
  := by
  constructor
  · intro n hn
    exact absurd (h.waiting n) hn
  · intro n p clukey hn
    cases (h.slots n).symm.trans hn

theorem Started.inOrder {s : State} (h : Started s) {c : String × String} (hc : c.1 ≠ c.2) :
  InOrder s c
  := by
  unfold InOrder Cluster.passed inFlight pending sent
  rw [h.passed c.1 c.2 hc, h.link, h.started]
  rfl

/-- As long as no message overtakes another one, the messages sent from one node to another are in order
those passed to the agent there, those on the link and those still to be sent; and once nothing happens
any more they have all been passed. -/
theorem sends_delivered_in_order {s : State} (hs : (system.machine Started).Reaches Careful s)
    {a b : String} (hne : a ≠ b) :
  passed s (a, b) ++ inFlight s (a, b) ++ pending s (a, b) = sent s (a, b) ∧
  (Quiet s → passed s (a, b) = sent s (a, b))
  := by
  have hkept : Core s ∧ Served s ∧ InOrder s (a, b) := by
    apply Machine.invariant _ _ hs
    · intro s hstarted
      exact ⟨hstarted.core, hstarted.served, hstarted.inOrder hne⟩
    · rintro s l s' ⟨hcore, hserved, horder⟩ hcareful hstep
      have hmoves := moves_of_step hcore hcareful hstep
      exact ⟨core_moves hcore hmoves, served_moves hcore hserved hmoves,
        inOrder_moves hcore hmoves hne horder⟩
  obtain ⟨hcore, hserved, horder⟩ := hkept
  use horder
  intro hquiet
  have hinFlight : inFlight s (a, b) = [] := by
    rw [inFlight, hquiet.link]
    rfl
  have hpending : pending s (a, b) = [] := by
    apply List.filterMap_eq_nil_iff.mpr
    intro n hn
    rw [messageAt, hquiet.waiting hcore hserved]
    rfl
  unfold InOrder at horder
  rwa [hinFlight, hpending, List.append_nil, List.append_nil] at horder

/-! ### Two runs -/

/-- The nodes at the start. -/
def unconnected : State where
  process a := ⟨a, fun _ => none, fun _ => none, 0⟩
  network := ⟨0, fun _ => none, fun _ => [], fun _ => []⟩
  started := []
  waiting _ := none

theorem unconnected_started :
  Started unconnected
  := ⟨fun _ => rfl, fun _ _ => rfl, fun _ _ _ => rfl, fun _ => rfl, fun _ => rfl, fun _ _ _ => rfl, rfl,
    fun _ => rfl⟩

/-- Nothing happens where nothing is on a link and no coroutine is suspended. -/
theorem quiet_of_idle {s : State} (hlink : ∀ c, s.network.link c = [])
    (hslots : ∀ n, s.network.slots n = none) (hwaiting : ∀ n, s.waiting n = none) :
  Quiet s
  := by
  have hreact : ∀ e, (∀ a b m, e ≠ .send a b m) → react e s.network = none := by
    intro e he
    cases e with
    | send a b m => exact absurd rfl (he a b m)
    | serve n =>
        have hasked : s.network.slots.asked n = none := by rw [Slots.asked, hslots n]
        dsimp only [react]
        rw [hasked]
        rfl
    | deliver c =>
        dsimp only [react]
        rw [hlink c]
  intro l hl
  cases l with
  | event e =>
      have hnone := hreact e fun a b m he => hl a b m (congrArg System.Step.event he)
      exact Option.map_eq_none_iff.mpr hnone
  | wake n => exact Option.bind_eq_none_iff.mpr fun t ht => nomatch (hwaiting n).symm.trans ht

/-- Two messages are sent.  The second one finds the proxy stored by the first one, which waits for the
other node to create an agent, and arrives before there is one. -/
def overtaken : List (System.Step Event) :=
  [.event (.send "a" "b" (.num 1)), .event (.serve 0), .wake 0, .event (.serve 0), .wake 0,
    .event (.send "a" "b" (.num 2)), .event (.deliver ("a", "b")), .event (.deliver ("a", "b")),
    .event (.serve 2), .wake 2, .event (.serve 2), .wake 2, .wake 0, .event (.deliver ("a", "b"))]

/-- The second message is lost. -/
theorem message_overtaken :
  ∃ s, (system.machine Started).exec unconnected overtaken = some s ∧ Quiet s ∧
    sent s ("a", "b") = [.num 1, .num 2] ∧ passed s ("a", "b") = [.num 1]
  := by
  have hruns : ∃ s, (system.machine Started).exec unconnected overtaken = some s ∧
      sent s ("a", "b") = [.num 1, .num 2] ∧ passed s ("a", "b") = [.num 1] ∧
      s.network.link ("a", "b") = [] ∧ (∀ c, c ≠ ("a", "b") → s.network.link c = []) ∧
      (∀ n, s.network.slots n = none) ∧ ∀ n, s.waiting n = none := by
    refine ⟨_, rfl, rfl, rfl, rfl, ?_, ?_, ?_⟩
    · intro c hc
      iterate 6 refine (Function.update_of_ne hc _ _).trans ?_
      rfl
    · intro n
      match n with
      | 0 => rfl
      | 1 => rfl
      | 2 => rfl
      | n + 3 => rfl
    · intro n
      match n with
      | 0 => rfl
      | 1 => rfl
      | 2 => rfl
      | 3 => rfl
      | 4 => rfl
      | n + 5 => rfl
  obtain ⟨s, hexec, hsent, hpassed, hlink, hlink', hslots, hwaiting⟩ := hruns
  refine ⟨s, hexec, ?_, hsent, hpassed⟩
  apply quiet_of_idle _ hslots hwaiting
  intro c
  rcases eq_or_ne c ("a", "b") with rfl | hc
  · exact hlink
  · exact hlink' c hc

/-- Two messages are sent, the second one when the first has been passed to the agent that has been created for it. -/
theorem sends_delivered_in_order_two :
  ∃ s, (system.machine Started).Reaches Careful s ∧ passed s ("a", "b") = [.num 1, .num 2] ∧
    passed s ("a", "b") ++ inFlight s ("a", "b") ++ pending s ("a", "b") = sent s ("a", "b") ∧
    (Quiet s → passed s ("a", "b") = sent s ("a", "b"))
  := by
  have hruns : ∃ s₁ s₂ s₃ s₄ s₅ s₆ s, (system.machine Started).exec unconnected
        [.event (.send "a" "b" (.num 1)), .event (.serve 0), .wake 0, .event (.serve 0), .wake 0,
          .event (.deliver ("a", "b")), .event (.serve 1)] = some s₁ ∧
      system.step s₁ (.wake 1) = some s₂ ∧ system.step s₂ (.event (.serve 1)) = some s₃ ∧
      system.step s₃ (.wake 1) = some s₄ ∧
      (system.machine Started).exec s₄ [.wake 0, .event (.deliver ("a", "b"))] = some s₅ ∧
      system.step s₅ (.event (.send "a" "b" (.num 2))) = some s₆ ∧
      system.step s₆ (.event (.deliver ("a", "b"))) = some s ∧
      (s₁.waiting 1).map (·.job) = some (.open "b" "a" 0) ∧
      (s₃.waiting 1).map (·.job) = some (.open "b" "a" 0) ∧ (∀ n, s₅.waiting n = none) ∧
      passed s ("a", "b") = [.num 1, .num 2] := by
    refine ⟨_, _, _, _, _, _, _, rfl, rfl, rfl, rfl, rfl, rfl, rfl, rfl, rfl, ?_, rfl⟩
    intro n
    match n with
    | 0 => rfl
    | 1 => rfl
    | 2 => rfl
    | n + 3 => rfl
  obtain ⟨s₁, s₂, s₃, s₄, s₅, s₆, s, hexec₁, hstep₁, hstep₂, hstep₃, hexec, hsend, hdeliver, hjob₁, hjob₃, hwaiting,
    hpassed⟩ := hruns
  have hfirst : ∀ s, Careful s (.wake 0) := fun _ _ _ _ _ _ _ _ k hk => absurd hk (Nat.not_lt_zero k)
  have hopen : ∀ s : State, (s.waiting 1).map (·.job) = some (.open "b" "a" 0) → Careful s (.wake 1) := by
    intro s hjob t p clukey ht hquery c hmessage
    rw [ht, Option.map_some, Option.some.injEq] at hjob
    rw [hjob] at hmessage
    exact absurd rfl hmessage
  have hs₁ : (system.machine Started).Reaches Careful s₁ := by
    apply Machine.Reaches.exec _ (.init unconnected_started) _ hexec₁
    exact fun _ _ => ⟨fun _ => ⟨rfl, fun hsome => absurd rfl hsome⟩, fun _ _ => ⟨trivial, fun _ _ =>
      ⟨hfirst _, fun _ _ => ⟨trivial, fun _ _ => ⟨hfirst _, fun _ _ => ⟨trivial, fun _ _ =>
        ⟨trivial, trivial⟩⟩⟩⟩⟩⟩⟩
  have hs₂ : (system.machine Started).Reaches Careful s₂ :=
    .step (l := .wake 1) hs₁ (hopen s₁ hjob₁) hstep₁
  have hs₃ : (system.machine Started).Reaches Careful s₃ :=
    .step (l := .event (.serve 1)) hs₂ trivial hstep₂
  have hs₄ : (system.machine Started).Reaches Careful s₄ :=
    .step (l := .wake 1) hs₃ (hopen s₃ hjob₃) hstep₃
  have hs₅ : (system.machine Started).Reaches Careful s₅ := by
    apply Machine.Reaches.exec _ hs₄ _ hexec
    exact fun _ _ => ⟨hfirst _, fun _ _ => ⟨trivial, trivial⟩⟩
  -- No earlier call waits when the second message is sent.
  have hcareful : Careful s₅ (.event (.send "a" "b" (.num 2))) := by
    refine fun _ => ⟨rfl, fun _ k => ?_⟩
    rw [messageAt, hwaiting]
    rfl
  have hs₆ : (system.machine Started).Reaches Careful s₆ :=
    .step (l := .event (.send "a" "b" (.num 2))) hs₅ hcareful hsend
  have hs : (system.machine Started).Reaches Careful s :=
    .step (l := .event (.deliver ("a", "b"))) hs₆ trivial hdeliver
  exact ⟨s, hs, hpassed, sends_delivered_in_order hs (by decide)⟩

end Cluster
