import FWServer.Kernel.History
import FWServer.Kernel.Precedence
import FWServer.Skynet.SlaveNames
import Mathlib.Data.List.Induction
import Mathlib.Data.List.Perm.Basic

/-!
# The connections of the slaves

While no process dies and no connection breaks, every two slaves that the master monitors are on the way to one
connection between them, which the one that has reported first opens: it is announced, or waits in the backlog of the
other, or has been accepted.  So a slave that waits for those before it waits for connections that will come, and when
nothing is left to be done every slave is ready and the harbor services have one connection for every two processes.
-/

namespace Skynet

namespace Slaves

variable {ι ν α : Type} {pack : Packing ν α} {harbor : ι → ℕ}

/-! ### What a slave has to do with its connections -/

/-- The connection that a package asks for. -/
def Notice.announces : Notice ι ν α → Option (ℕ × ι)
  | .C id address => some (id, address)
  | _ => none

/-- The connection that is given to the harbor service. -/
def Command.socket : Command ι ν α → Option (ℕ × ι)
  | .S fd id => some (id, fd)
  | .A fd id => some (id, fd)
  | .N _ _ => none

namespace Slave

/-- The connections that wait in `connect_queue`. -/
def queued (x : Slave ι ν α) : List (ℕ × ι) :=
  match x.connect_queue with
  | some queue => queue.entries.map fun e : (_ : ℕ) × ι => (e.1, e.2)
  | none => []

/-- The connections that the slave has yet to open. -/
def pending (x : Slave ι ν α) : List (ℕ × ι) :=
  x.queued ++ (x.opening.toList ++ (x.linking.toList ++ x.rest))

/-- The connections that are given to the harbor service. -/
def given (x : Slave ι ν α) : List (ℕ × ι) :=
  x.told.filterMap Command.socket

end Slave

/-- The connections that a slave has yet to open, with those it has not read of. -/
def announced (x : Slave ι ν α) (down : List (Notice ι ν α)) : List (ℕ × ι) :=
  down.filterMap Notice.announces ++ x.pending

/-! ### The invariant -/

/-- The slave as it is before it has been greeted. -/
structure Blank (x : Slave ι ν α) : Prop where
  slaves : x.slaves = ∅
  queue : x.connect_queue = some ∅
  opening : x.opening = none
  linking : x.linking = none
  rest : x.rest = []
  given : x.given = []

/-- The packages that a slave which has been greeted reads. -/
def Notice.Later : Notice ι ν α → Prop
  | .C _ _ => True
  | .N _ _ => True
  | _ => False

/-- A slave that the master monitors and that `n` slaves have reported before. -/
structure Shape (n : ℕ) (x : Slave ι ν α) (down : List (Notice ι ν α)) : Prop where
  running : x.phase.Live
  greeting : x.phase = .greeting → Blank x ∧ ∃ rest, down = .W n :: rest ∧ ∀ m ∈ rest, m.Later
  later : x.phase ≠ .greeting → ∀ m ∈ down, m.Later
  waiting : ∀ k, x.phase = .waiting k → k = n ∧ x.slaves.keys.length < n
  queueing : x.phase ≠ .ready → x.connect_queue.isSome ∧ x.opening = none ∧ x.linking = none ∧ x.rest = []
  ready : x.phase = .ready → x.connect_queue = none
  linking : x.linking = none → x.rest = []
  given : (x.slaves.entries.map fun e : (_ : ℕ) × Option ι => (e.1, e.2)) =
    x.given.reverse.map fun e => (e.1, some e.2)

section SameLinks

variable {x y : Slave ι ν α} {down : List (Notice ι ν α)} {n : ℕ}

/-- The slave is the same as far as its connections are concerned. -/
structure Slave.SameLinks (x y : Slave ι ν α) : Prop where
  phase : y.phase = x.phase
  slaves : y.slaves = x.slaves
  queue : y.connect_queue = x.connect_queue
  opening : y.opening = x.opening
  linking : y.linking = x.linking
  rest : y.rest = x.rest
  given : y.given = x.given

theorem Slave.SameLinks.pending (h : x.SameLinks y) :
  y.pending = x.pending
  := by
  unfold Slave.pending Slave.queued
  rw [h.queue, h.opening, h.linking, h.rest]

theorem Slave.SameLinks.blank (h : x.SameLinks y) (hx : Blank x) :
  Blank y
  := ⟨h.slaves.trans hx.slaves, h.queue.trans hx.queue, h.opening.trans hx.opening, h.linking.trans hx.linking,
    h.rest.trans hx.rest, h.given.trans hx.given⟩

theorem Shape.congr (h : Shape n x down) (more : List (Notice ι ν α)) (hxy : x.SameLinks y)
    (hmore : ∀ m ∈ more, m.Later) :
  Shape n y (down ++ more)
  := by
  obtain ⟨hphase, hslaves, hqueue, hopening, hlinking, hrest, hgiven⟩ := hxy
  constructor
  · rw [hphase]
    exact h.running
  · rw [hphase]
    intro hgreeting
    obtain ⟨hblank, rest, heq, hlater⟩ := h.greeting hgreeting
    refine ⟨Slave.SameLinks.blank ⟨hphase, hslaves, hqueue, hopening, hlinking, hrest, hgiven⟩ hblank, rest ++ more,
      by rw [heq, List.cons_append], fun m hm => ?_⟩
    exact (List.mem_append.mp hm).elim (hlater m) (hmore m)
  · rw [hphase]
    exact fun hne m hm => (List.mem_append.mp hm).elim (h.later hne m) (hmore m)
  · rw [hphase, hslaves]
    exact h.waiting
  · rw [hphase, hqueue, hopening, hlinking, hrest]
    exact h.queueing
  · rw [hphase, hqueue]
    exact h.ready
  · rw [hlinking, hrest]
    exact h.linking
  · rw [hslaves, hgiven]
    exact h.given

theorem Shape.of_greeting (hgreeting : x.phase = .greeting) (hx : Blank x) (n : ℕ) :
  Shape n x [.W n]
  := by
  constructor
  · rw [hgreeting]
    trivial
  · exact fun _ => ⟨hx, [], rfl, fun m hm => absurd hm List.not_mem_nil⟩
  · exact fun hne => absurd hgreeting hne
  · intro k hk
    cases hgreeting.symm.trans hk
  · intro _
    rw [hx.queue]
    exact ⟨rfl, hx.opening, hx.linking, hx.rest⟩
  · intro hready
    cases hgreeting.symm.trans hready
  · exact fun _ => hx.rest
  · rw [hx.slaves, hx.given]
    rfl

theorem Blank.pending (h : Blank x) :
  x.pending = []
  := by
  unfold Slave.pending Slave.queued
  rw [h.queue, h.opening, h.linking, h.rest]
  rfl

/-- The table of a slave with one more connection, which is given to the harbor service. -/
theorem given_insert {r : ι} {id : ℕ} (hgiven : (x.slaves.entries.map fun e : (_ : ℕ) × Option ι => (e.1, e.2)) =
      x.given.reverse.map fun e => (e.1, some e.2))
    (hfresh : x.slaves.lookup id = none) (hslaves : y.slaves = x.slaves.insert id (some r))
    (hnew : y.given = x.given ++ [(id, r)]) :
  (y.slaves.entries.map fun e : (_ : ℕ) × Option ι => (e.1, e.2)) = y.given.reverse.map fun e => (e.1, some e.2)
  := by
  rw [hslaves, AList.entries_insert_of_notMem (AList.lookup_eq_none.mp hfresh), List.map_cons, hgiven, hnew,
    List.reverse_append, List.reverse_singleton, List.singleton_append, List.map_cons]

theorem given_tell (x : Slave ι ν α) (c : Command ι ν α) :
  (x.tell c).given = x.given ++ c.socket.toList
  := by
  unfold Slave.given Slave.tell
  rw [List.filterMap_append]
  cases c <;> rfl

/-- The loop of `ready` stops at the first connection, which has yet to be opened. -/
theorem ready_stops (x : Slave ι ν α) (l : List (ℕ × ι)) (hnone : ∀ e ∈ l, x.slaves.lookup e.1 = none) :
  (x.ready l).phase = x.phase ∧ (x.ready l).slaves = x.slaves ∧ (x.ready l).connect_queue = x.connect_queue ∧
    (x.ready l).pending = x.queued ++ (x.opening.toList ++ l) ∧
    ((x.ready l).linking = none → (x.ready l).rest = []) ∧ (x.ready l).given = x.given
  := by
  cases l with
  | nil =>
      have htold : (x.globalname.entries.map fun e => Command.N e.1 e.2 : List (Command ι ν α)).filterMap
          Command.socket = [] := by
        rw [List.filterMap_eq_nil_iff]
        intro c hc
        obtain ⟨e, -, rfl⟩ := List.mem_map.mp hc
        rfl
      refine ⟨rfl, rfl, rfl, rfl, fun _ => rfl, ?_⟩
      unfold Slave.given
      rw [Slave.ready, List.filterMap_append, htold, List.append_nil]
  | cons e l =>
      rw [Slave.ready, if_pos (hnone e List.mem_cons_self)]
      refine ⟨rfl, rfl, rfl, rfl, fun hlinking => ?_, rfl⟩
      cases hlinking

/-- What a slave does with a connection from a harbor that it does not know. -/
theorem accepted_cases (x : Slave ι ν α) (fd : ι) (id : ℕ) (hnone : x.slaves.lookup id = none) :
  ∃ φ, x.accepted fd (some id) =
      { (({ x with slaves := x.slaves.insert id (some fd) }.monitor_clear id).tell (.A fd id)) with phase := φ } ∧
    (φ = x.phase ∧ (∀ n, x.phase = .waiting n → (x.slaves.insert id (some fd)).keys.length < n) ∨
      φ = .closing ∧ ∃ n, x.phase = .waiting n ∧ n ≤ (x.slaves.insert id (some fd)).keys.length)
  := by
  have haccept : x.accept_slave fd (some id) =
      ({ x with slaves := x.slaves.insert id (some fd) }.monitor_clear id).tell (.A fd id) := by
    rw [Slave.accept_slave, if_pos hnone]
  unfold Slave.accepted
  rw [haccept]
  dsimp only
  split
  · next n hwaiting =>
      split
      · next hle => exact ⟨.closing, rfl, .inr ⟨rfl, n, hwaiting, hle⟩⟩
      · next hlt =>
          refine ⟨x.phase, rfl, .inl ⟨rfl, fun k hk => ?_⟩⟩
          obtain rfl := Phase.waiting.inj (hwaiting.symm.trans hk)
          exact Nat.lt_of_not_le hlt
  · next hnot =>
      refine ⟨x.phase, rfl, .inl ⟨rfl, fun k hk => ?_⟩⟩
      exact absurd hk (hnot k)

end SameLinks

variable [DecidableEq ι]

/-- Of two slaves the one that has reported first, `q` with the state `x`, opens the connection, and the other, `p` with
the state `y`, accepts it. -/
structure Pair (harbor : ι → ℕ) (q p : ι) (x y : Slave ι ν α) (announced : List (ℕ × ι)) (incoming : List ι) :
    Prop where
  once : announced.count (harbor p, p) + incoming.count q +
    (if y.slaves.lookup (harbor q) = none then 0 else 1) = 1
  accepted : y.slaves.lookup (harbor q) = none ∨ y.slaves.lookup (harbor q) = some (some q)
  opened : x.slaves.lookup (harbor p) = if (harbor p, p) ∈ announced then none else some (some p)
  finished : y.phase = .closing ∨ y.phase = .ready → y.slaves.lookup (harbor q) ≠ none

/-- What holds of the connections. -/
structure Mesh (harbor : ι → ℕ) (s : State ι ν α) : Prop where
  nodes : s.slave_node = s.fds.map fun p => ⟨harbor p, some p, p⟩
  ids : (s.fds.map harbor).Nodup
  up : ∀ p, s.conn p = .handshake → ∃ rest, s.up p = .H (harbor p) p :: rest
  dead : ∀ p, (s.slave p).phase = .down → s.conn p = .closed
  blank : ∀ p, p ∉ s.fds → Blank (s.slave p) ∧ s.incoming p = [] ∧ s.down p = []
  shape : ∀ l₁ p l₂, s.fds = l₁ ++ p :: l₂ → Shape l₁.length (s.slave p) (s.down p)
  announced : ∀ q, ∀ e ∈ announced (s.slave q) (s.down q), s.fds.Precedes q e.2 ∧ e.1 = harbor e.2
  incoming : ∀ p, ∀ q ∈ s.incoming p, s.fds.Precedes q p
  keys : ∀ p, ∀ id ∈ (s.slave p).slaves, ∃ q, id = harbor q ∧
    (s.fds.Precedes q p ∨ (s.slave p).phase = .ready ∧ s.fds.Precedes p q)
  pair : ∀ q p, s.fds.Precedes q p → Pair harbor q p (s.slave q) (s.slave p)
    (Slaves.announced (s.slave q) (s.down q)) (s.incoming p)

/-! ### Changes of one slave -/

section Local

variable {s t : State ι ν α} {p q : ι} {x x' y y' : Slave ι ν α} {l l' : List (ℕ × ι)} {incoming : List ι}
  {down : List (Notice ι ν α)} {n : ℕ}

theorem Pair.congr {incoming' : List ι} (h : Pair harbor q p x y l incoming)
    (hx : x'.slaves.lookup (harbor p) = x.slaves.lookup (harbor p))
    (hy : y'.slaves.lookup (harbor q) = y.slaves.lookup (harbor q))
    (hl : l'.count (harbor p, p) = l.count (harbor p, p)) (hincoming : incoming'.count q = incoming.count q)
    (hfinished : y'.phase = .closing ∨ y'.phase = .ready → y'.slaves.lookup (harbor q) ≠ none) :
  Pair harbor q p x' y' l' incoming'
  := by
  obtain ⟨honce, haccepted, hopened, -⟩ := h
  constructor
  · rw [hl, hy, hincoming]
    exact honce
  · rw [hy]
    exact haccepted
  · rw [hx, hopened]
    refine if_congr ?_ rfl rfl
    rw [← List.count_pos_iff, ← List.count_pos_iff, hl]
  · exact hfinished

/-- A slave that the master monitors goes on with the connections that it has and those it has yet to open. -/
theorem Mesh.local (h : Mesh harbor s) (x : Slave ι ν α) (down : List (Notice ι ν α)) (hp : p ∈ s.fds)
    (hslaves : x.slaves = (s.slave p).slaves)
    (hannounced : (Slaves.announced x down).Perm (Slaves.announced (s.slave p) (s.down p)))
    (hready : (s.slave p).phase = .ready → x.phase = .ready)
    (hfinished : x.phase = .closing ∨ x.phase = .ready →
      ∀ q, s.fds.Precedes q p → (s.slave p).slaves.lookup (harbor q) ≠ none)
    (hshape : ∀ l₁ l₂, s.fds = l₁ ++ p :: l₂ → Shape l₁.length x down)
    (hnodes : t.slave_node = s.slave_node) (hconn : t.conn = s.conn) (hup : t.up = s.up)
    (hincoming : t.incoming = s.incoming) (hslave : t.slave = Function.update s.slave p x)
    (hdown : t.down = Function.update s.down p down) :
  Mesh harbor t
  := by
  have hfds : t.fds = s.fds := congrArg (List.filterMap Node.fd) hnodes
  have hsplit (q : ι) : t.slave q = s.slave q ∧ t.down q = s.down q ∨ q = p ∧ t.slave q = x ∧ t.down q = down := by
    rw [hslave, hdown]
    rcases eq_or_ne q p with rfl | hne
    · exact .inr ⟨rfl, Function.update_self _ _ _, Function.update_self _ _ _⟩
    · exact .inl ⟨Function.update_of_ne hne _ _, Function.update_of_ne hne _ _⟩
  have hslavesAt (q : ι) : (t.slave q).slaves = (s.slave q).slaves := by
    obtain ⟨h₁, -⟩ | ⟨rfl, h₁, -⟩ := hsplit q
    · rw [h₁]
    · rw [h₁, hslaves]
  have hannouncedAt (q : ι) :
      (Slaves.announced (t.slave q) (t.down q)).Perm (Slaves.announced (s.slave q) (s.down q)) := by
    obtain ⟨h₁, h₂⟩ | ⟨rfl, h₁, h₂⟩ := hsplit q
    · rw [h₁, h₂]
    · rw [h₁, h₂]
      exact hannounced
  have hlive : x.phase.Live := by
    obtain ⟨l₁, l₂, heq⟩ := List.append_of_mem hp
    exact (hshape l₁ l₂ heq).running
  constructor
  · rw [hnodes, hfds]
    exact h.nodes
  · rw [hfds]
    exact h.ids
  · rw [hconn, hup]
    exact h.up
  · intro q hq
    rw [hconn]
    obtain ⟨h₁, -⟩ | ⟨rfl, h₁, -⟩ := hsplit q
    · exact h.dead q (h₁ ▸ hq)
    · rw [← h₁, hq] at hlive
      exact absurd hlive id
  · intro q hq
    rw [hfds] at hq
    obtain ⟨h₁, h₂⟩ | ⟨rfl, -⟩ := hsplit q
    · rw [h₁, h₂, hincoming]
      exact h.blank q hq
    · exact absurd hp hq
  · intro l₁ q l₂ heq
    rw [hfds] at heq
    obtain ⟨h₁, h₂⟩ | ⟨rfl, h₁, h₂⟩ := hsplit q
    · rw [h₁, h₂]
      exact h.shape l₁ q l₂ heq
    · rw [h₁, h₂]
      exact hshape l₁ l₂ heq
  · intro q e he
    rw [hfds]
    exact h.announced q e ((hannouncedAt q).mem_iff.mp he)
  · rw [hincoming, hfds]
    exact h.incoming
  · intro q id hid
    rw [hslavesAt] at hid
    rw [hfds]
    obtain ⟨r, hr, hprecedes⟩ := h.keys q id hid
    refine ⟨r, hr, hprecedes.imp_right fun ⟨hphase, hqr⟩ => ⟨?_, hqr⟩⟩
    obtain ⟨h₁, -⟩ | ⟨rfl, h₁, -⟩ := hsplit q
    · rwa [h₁]
    · rw [h₁]
      exact hready hphase
  · intro q r hqr
    rw [hfds] at hqr
    rw [hincoming]
    refine (h.pair q r hqr).congr (by rw [hslavesAt]) (by rw [hslavesAt]) ((hannouncedAt q).count_eq _) rfl ?_
    rw [hslavesAt]
    obtain ⟨h₁, -⟩ | ⟨rfl, h₁, -⟩ := hsplit r
    · rw [h₁]
      exact (h.pair q r hqr).finished
    · rw [h₁]
      exact fun hphase => hfinished hphase q hqr

/-- A slave that the master does not monitor does nothing with its connections. -/
theorem Mesh.outside (h : Mesh harbor s) (hp : p ∉ s.fds) (hslave : ∀ q, q ≠ p → t.slave q = s.slave q)
    (hblank : Blank (t.slave p)) (hdead : (t.slave p).phase = .down → t.conn p = .closed)
    (hup : t.conn p = .handshake → ∃ rest, t.up p = .H (harbor p) p :: rest) (hnodes : t.slave_node = s.slave_node)
    (hother : ∀ q, q ≠ p → t.conn q = s.conn q ∧ t.up q = s.up q) (hdown : t.down = s.down)
    (hincoming : t.incoming = s.incoming) :
  Mesh harbor t
  := by
  have hfds : t.fds = s.fds := congrArg (List.filterMap Node.fd) hnodes
  have hne {q : ι} (hq : q ∈ s.fds) : q ≠ p := by
    rintro rfl
    exact hp hq
  have hnone {x : Slave ι ν α} (hx : Blank x) : Slaves.announced x [] = [] := by
    unfold Slaves.announced
    rw [hx.pending]
    rfl
  have hblankp := h.blank p hp
  have hannouncedAt (q : ι) :
      Slaves.announced (t.slave q) (t.down q) = Slaves.announced (s.slave q) (s.down q) := by
    rw [hdown]
    rcases eq_or_ne q p with rfl | hqp
    · rw [hblankp.2.2, hnone hblank, hnone hblankp.1]
    · rw [hslave q hqp]
  constructor
  · rw [hnodes, hfds]
    exact h.nodes
  · rw [hfds]
    exact h.ids
  · intro q hq
    rcases eq_or_ne q p with rfl | hqp
    · exact hup hq
    · rw [(hother q hqp).1] at hq
      rw [(hother q hqp).2]
      exact h.up q hq
  · intro q hq
    rcases eq_or_ne q p with rfl | hqp
    · exact hdead hq
    · rw [hslave q hqp] at hq
      rw [(hother q hqp).1]
      exact h.dead q hq
  · intro q hq
    rw [hfds] at hq
    rw [hdown, hincoming]
    rcases eq_or_ne q p with rfl | hqp
    · exact ⟨hblank, hblankp.2⟩
    · rw [hslave q hqp]
      exact h.blank q hq
  · intro l₁ q l₂ heq
    rw [hfds] at heq
    have hq : q ∈ s.fds := heq ▸ List.mem_append_right l₁ List.mem_cons_self
    rw [hslave q (hne hq), hdown]
    exact h.shape l₁ q l₂ heq
  · intro q e he
    rw [hannouncedAt] at he
    rw [hfds]
    exact h.announced q e he
  · rw [hincoming, hfds]
    exact h.incoming
  · intro q id hid
    rw [hfds]
    rcases eq_or_ne q p with rfl | hqp
    · rw [hblank.slaves] at hid
      exact absurd hid (AList.notMem_empty id)
    · rw [hslave q hqp] at hid ⊢
      exact h.keys q id hid
  · intro q r hqr
    rw [hfds] at hqr
    rw [hannouncedAt, hincoming, hslave q (hne hqr.mem_left), hslave r (hne hqr.mem_right)]
    exact h.pair q r hqr

/-- The slaves go on with their connections; at most names are told. -/
theorem Mesh.idle (h : Mesh harbor s) (hnodes : t.slave_node = s.slave_node) (hincoming : t.incoming = s.incoming)
    (hslave : ∀ q, (s.slave q).SameLinks (t.slave q)) (hdead : ∀ q, s.conn q = .closed → t.conn q = .closed)
    (hup : ∀ q, t.conn q = .handshake → ∃ rest, t.up q = .H (harbor q) q :: rest)
    (hdown : ∀ q, ∃ more, t.down q = s.down q ++ more ∧ (∀ m ∈ more, ∃ name a, m = .N name a) ∧
      (q ∉ s.fds → more = [])) :
  Mesh harbor t
  := by
  have hfds : t.fds = s.fds := congrArg (List.filterMap Node.fd) hnodes
  have hannounced (q : ι) :
      Slaves.announced (t.slave q) (t.down q) = Slaves.announced (s.slave q) (s.down q) := by
    obtain ⟨more, heq, hmore, -⟩ := hdown q
    have hnone : more.filterMap Notice.announces = [] := by
      rw [List.filterMap_eq_nil_iff]
      intro m hm
      obtain ⟨name, a, rfl⟩ := hmore m hm
      rfl
    unfold Slaves.announced
    rw [heq, (hslave q).pending, List.filterMap_append, hnone, List.append_nil]
  constructor
  · rw [hnodes, hfds]
    exact h.nodes
  · rw [hfds]
    exact h.ids
  · exact hup
  · intro q hq
    rw [(hslave q).phase] at hq
    exact hdead q (h.dead q hq)
  · intro q hq
    rw [hfds] at hq
    obtain ⟨more, heq, -, hmore⟩ := hdown q
    obtain ⟨hblank, hnone, hempty⟩ := h.blank q hq
    rw [hincoming, heq, hmore hq, hempty]
    exact ⟨(hslave q).blank hblank, hnone, rfl⟩
  · intro l₁ q l₂ heq
    rw [hfds] at heq
    obtain ⟨more, hd, hmore, -⟩ := hdown q
    rw [hd]
    refine (h.shape l₁ q l₂ heq).congr _ (hslave q) fun m hm => ?_
    obtain ⟨name, a, rfl⟩ := hmore m hm
    trivial
  · intro q e he
    rw [hannounced] at he
    rw [hfds]
    exact h.announced q e he
  · rw [hincoming, hfds]
    exact h.incoming
  · intro q id hid
    rw [(hslave q).slaves] at hid
    rw [hfds, (hslave q).phase]
    exact h.keys q id hid
  · intro q r hqr
    rw [hfds] at hqr
    rw [hannounced, hincoming]
    refine (h.pair q r hqr).congr (by rw [(hslave q).slaves]) (by rw [(hslave r).slaves]) rfl rfl ?_
    rw [(hslave r).phase, (hslave r).slaves]
    exact (h.pair q r hqr).finished

/-! ### The slave that reports -/

/-- A slave reports itself: it waits for those that have reported before, and they are asked to connect to it. -/
theorem Mesh.report [DecidableEq ν] (h : Mesh harbor s) (hsound : Sound pack s) (hconn : s.conn p = .handshake)
    (hid : harbor p ∉ s.fds.map harbor) (hfds : t.fds = s.fds ++ [p])
    (hnodes : t.slave_node = s.slave_node ++ [⟨harbor p, some p, p⟩]) (hslave : t.slave = s.slave)
    (hincoming : t.incoming = s.incoming) (hconns : t.conn = Function.update s.conn p (.monitor (harbor p)))
    (hup : ∀ q, q ≠ p → t.up q = s.up q)
    (hdown : ∀ q, t.down q = s.down q ++ List.replicate (s.fds.count q) (.C (harbor p) p) ++
      List.replicate ([p].count q) (.W s.fds.length)) :
  Mesh harbor t
  := by
  have hp : p ∉ s.fds := by
    intro hmem
    obtain ⟨id, heq⟩ := hsound.1.mem_fds.mp hmem
    cases hconn.symm.trans heq
  have hne {q : ι} (hq : q ∈ s.fds) : q ≠ p := by
    rintro rfl
    exact hp hq
  obtain ⟨hblank, hnone, hempty⟩ := h.blank p hp
  have hgreeting : (s.slave p).phase = .greeting := by
    have hphase := hsound.2 p
    rw [hconn] at hphase
    refine (hphase.phase_of_handshake.resolve_left fun hdead => ?_).1
    cases hconn.symm.trans (h.dead p hdead)
  have hdownp : t.down p = [.W s.fds.length] := by
    rw [hdown, hempty, List.count_eq_zero_of_not_mem hp, List.count_singleton_self]
    rfl
  have hdownOld {q : ι} (hq : q ∈ s.fds) : t.down q = s.down q ++ [.C (harbor p) p] := by
    rw [hdown, List.count_eq_one_of_mem hsound.1.nodup_fds hq,
      List.count_eq_zero_of_not_mem (mt List.mem_singleton.mp (hne hq)), List.replicate_zero, List.append_nil]
    rfl
  have hdownOther {q : ι} (hq : q ∉ s.fds) (hqp : q ≠ p) : t.down q = s.down q := by
    rw [hdown, List.count_eq_zero_of_not_mem hq, List.count_eq_zero_of_not_mem (mt List.mem_singleton.mp hqp),
      List.replicate_zero, List.append_nil, List.replicate_zero, List.append_nil]
  have hannouncedp : Slaves.announced (s.slave p) (t.down p) = [] := by
    unfold Slaves.announced
    rw [hdownp, hblank.pending]
    rfl
  have hannouncedOld {q : ι} (hq : q ∈ s.fds) : (Slaves.announced (s.slave q) (t.down q)).Perm
      ((harbor p, p) :: Slaves.announced (s.slave q) (s.down q)) := by
    unfold Slaves.announced
    rw [hdownOld hq, List.filterMap_append, List.append_assoc]
    exact List.perm_middle
  constructor
  · rw [hnodes, hfds, List.map_append, h.nodes]
    rfl
  · rw [hfds, List.map_append, List.map_singleton, ← List.concat_eq_append]
    exact h.ids.concat hid
  · intro q hq
    rw [hconns] at hq
    have hqp : q ≠ p := by
      rintro rfl
      rw [Function.update_self] at hq
      cases hq
    rw [Function.update_of_ne hqp] at hq
    rw [hup q hqp]
    exact h.up q hq
  · intro q hq
    rw [hslave] at hq
    have hqp : q ≠ p := by
      rintro rfl
      cases hgreeting.symm.trans hq
    rw [hconns, Function.update_of_ne hqp]
    exact h.dead q hq
  · intro q hq
    rw [hfds, List.mem_append, List.mem_singleton, not_or] at hq
    rw [hslave, hincoming, hdownOther hq.1 hq.2]
    exact h.blank q hq.1
  · intro l₁ q l₂ heq
    rw [hfds] at heq
    rw [hslave]
    obtain ⟨rfl, rfl, -⟩ | ⟨rest, rfl, hold⟩ := History.concat_cases heq
    · rw [hdownp]
      exact .of_greeting hgreeting hblank _
    · rw [hdownOld (hold ▸ List.mem_append_right l₁ List.mem_cons_self)]
      refine (h.shape l₁ q rest hold).congr _ ⟨rfl, rfl, rfl, rfl, rfl, rfl, rfl⟩ fun m hm => ?_
      rw [List.mem_singleton.mp hm]
      trivial
  · intro q e he
    rw [hfds, List.Precedes.concat_iff]
    rw [hslave] at he
    by_cases hq : q ∈ s.fds
    · rcases List.mem_cons.mp ((hannouncedOld hq).mem_iff.mp he) with rfl | he
      · exact ⟨.inr ⟨hq, rfl⟩, rfl⟩
      · exact (h.announced q e he).imp_left .inl
    · rcases eq_or_ne q p with rfl | hqp
      · rw [hannouncedp] at he
        exact absurd he List.not_mem_nil
      · rw [hdownOther hq hqp] at he
        exact (h.announced q e he).imp_left .inl
  · intro q r hr
    rw [hincoming] at hr
    rw [hfds, List.Precedes.concat_iff]
    exact .inl (h.incoming q r hr)
  · intro q id hq
    rw [hslave] at hq ⊢
    rw [hfds]
    obtain ⟨r, hr, hprecedes⟩ := h.keys q id hq
    refine ⟨r, hr, hprecedes.imp (fun hrq => List.Precedes.concat_iff.mpr (.inl hrq)) ?_⟩
    exact fun ⟨hready, hqr⟩ => ⟨hready, List.Precedes.concat_iff.mpr (.inl hqr)⟩
  · intro q r hqr
    rw [hfds, List.Precedes.concat_iff] at hqr
    rw [hslave, hincoming]
    obtain hqr | ⟨hq, rfl⟩ := hqr
    · refine (h.pair q r hqr).congr rfl rfl ?_ rfl (h.pair q r hqr).finished
      rw [(hannouncedOld hqr.mem_left).count_eq, List.count_cons_of_ne]
      exact fun heq => hne hqr.mem_right (congrArg Prod.snd heq).symm
    · have hfresh : (harbor r, r) ∉ Slaves.announced (s.slave q) (s.down q) := fun hmem =>
        hp (h.announced q _ hmem).1.mem_right
      have hlookup (id : ℕ) : (s.slave r).slaves.lookup id = none := by
        rw [hblank.slaves, AList.lookup_empty]
      constructor
      · rw [(hannouncedOld hq).count_eq, List.count_cons_self, List.count_eq_zero_of_not_mem hfresh, hnone, hlookup]
        rfl
      · exact .inl (hlookup _)
      · rw [if_pos ((hannouncedOld hq).mem_iff.mpr List.mem_cons_self), AList.lookup_eq_none]
        intro hkey
        obtain ⟨r', hr', hprecedes⟩ := h.keys q _ hkey
        refine hid (List.mem_map.mpr ⟨r', ?_, hr'.symm⟩)
        obtain hprecedes | ⟨-, hprecedes⟩ := hprecedes
        · exact hprecedes.mem_left
        · exact hprecedes.mem_right
      · intro hphase
        rw [hgreeting] at hphase
        rcases hphase with heq | heq <;> cases heq

/-! ### Both ends of a connection -/

/-- One end of the connection from `a` to `b` has been given to the harbor service of `p`, which is one of them. -/
theorem Mesh.connect {a b r : ι} (h : Mesh harbor s) (incoming : List ι) (hab : s.fds.Precedes a b)
    (hp : p = a ∧ r = b ∨ p = b ∧ r = a ) (hslaves : x.slaves = (s.slave p).slaves.insert (harbor r) (some r))
    (hsubset : ∀ e ∈ Slaves.announced x (s.down p), e ∈ Slaves.announced (s.slave p) (s.down p))
    (hcount : ∀ c, c ≠ r → (Slaves.announced x (s.down p)).count (harbor c, c) =
      (Slaves.announced (s.slave p) (s.down p)).count (harbor c, c))
    (hincoming : t.incoming = Function.update s.incoming b incoming)
    (hcoming : ∀ c, c ≠ a → incoming.count c = (s.incoming b).count c)
    (hpair : Pair harbor a b (t.slave a) (t.slave b) (Slaves.announced (t.slave a) (t.down a)) incoming)
    (hready : (s.slave p).phase = .ready → x.phase = .ready) (hkeys : p = b ∨ x.phase = .ready)
    (hfinished : x.phase = .closing ∨ x.phase = .ready →
      ∀ c, s.fds.Precedes c p → x.slaves.lookup (harbor c) ≠ none)
    (hshape : ∀ l₁ l₂, s.fds = l₁ ++ p :: l₂ → Shape l₁.length x (s.down p)) (hnodup : s.fds.Nodup)
    (hnodes : t.slave_node = s.slave_node) (hconn : t.conn = s.conn) (hup : t.up = s.up)
    (hslave : t.slave = Function.update s.slave p x) (hdown : t.down = s.down) :
  Mesh harbor t
  := by
  have hfds : t.fds = s.fds := congrArg (List.filterMap Node.fd) hnodes
  have hself : t.slave p = x := by rw [hslave, Function.update_self]
  have hother {q : ι} (hq : q ≠ p) : t.slave q = s.slave q := by rw [hslave, Function.update_of_ne hq]
  have hpmem : p ∈ s.fds := by
    rcases hp with ⟨rfl, -⟩ | ⟨rfl, -⟩
    · exact hab.mem_left
    · exact hab.mem_right
  have hrmem : r ∈ s.fds := by
    rcases hp with ⟨-, rfl⟩ | ⟨-, rfl⟩
    · exact hab.mem_right
    · exact hab.mem_left
  have hinj {c : ι} (hc : c ∈ s.fds) (hcr : c ≠ r) : harbor c ≠ harbor r := fun heq =>
    hcr (List.inj_on_of_nodup_map h.ids hc hrmem heq)
  -- Only the entry of `r` in the table of `p` is new.
  have hlookup {q c : ι} (hc : c ∈ s.fds) (hqc : q = p → c ≠ r) :
      (t.slave q).slaves.lookup (harbor c) = (s.slave q).slaves.lookup (harbor c) := by
    rcases eq_or_ne q p with rfl | hqp
    · rw [hself, hslaves, AList.lookup_insert_ne (hinj hc (hqc rfl))]
    · rw [hother hqp]
  have hlive : x.phase.Live := by
    obtain ⟨l₁, l₂, heq⟩ := List.append_of_mem hpmem
    exact (hshape l₁ l₂ heq).running
  constructor
  · rw [hnodes, hfds]
    exact h.nodes
  · rw [hfds]
    exact h.ids
  · rw [hconn, hup]
    exact h.up
  · intro q hq
    rw [hconn]
    rcases eq_or_ne q p with rfl | hqp
    · rw [← hself, hq] at hlive
      exact absurd hlive id
    · rw [hother hqp] at hq
      exact h.dead q hq
  · intro q hq
    rw [hfds] at hq
    have hqp : q ≠ p := by
      rintro rfl
      exact hq hpmem
    have hqb : q ≠ b := by
      rintro rfl
      exact hq hab.mem_right
    rw [hother hqp, hincoming, Function.update_of_ne hqb, hdown]
    exact h.blank q hq
  · intro l₁ q l₂ heq
    rw [hfds] at heq
    rw [hdown]
    rcases eq_or_ne q p with rfl | hqp
    · rw [hself]
      exact hshape l₁ l₂ heq
    · rw [hother hqp]
      exact h.shape l₁ q l₂ heq
  · intro q e he
    rw [hdown] at he
    rw [hfds]
    rcases eq_or_ne q p with rfl | hqp
    · rw [hself] at he
      exact h.announced q e (hsubset e he)
    · rw [hother hqp] at he
      exact h.announced q e he
  · intro q c hc
    rw [hincoming] at hc
    rw [hfds]
    rcases eq_or_ne q b with rfl | hqb
    · rw [Function.update_self] at hc
      rcases eq_or_ne c a with rfl | hca
      · exact hab
      · refine h.incoming q c (List.count_pos_iff.mp ?_)
        rw [← hcoming c hca]
        exact List.count_pos_iff.mpr hc
    · rw [Function.update_of_ne hqb] at hc
      exact h.incoming q c hc
  · intro q id hid
    rw [hfds]
    rcases eq_or_ne q p with rfl | hqp
    · rw [hself, hslaves, AList.mem_insert] at hid
      rw [hself]
      rcases hid with rfl | hid
      · refine ⟨r, rfl, ?_⟩
        rcases hp with ⟨rfl, rfl⟩ | ⟨rfl, rfl⟩
        · exact .inr ⟨hkeys.resolve_left (hab.ne hnodup), hab⟩
        · exact .inl hab
      · obtain ⟨c, hc, hprecedes⟩ := h.keys q id hid
        exact ⟨c, hc, hprecedes.imp_right fun hlater => ⟨hready hlater.1, hlater.2⟩⟩
    · rw [hother hqp] at hid ⊢
      exact h.keys q id hid
  · intro q c hqc
    rw [hfds] at hqc
    by_cases hsame : q = a ∧ c = b
    · obtain ⟨rfl, rfl⟩ := hsame
      rw [hincoming, Function.update_self]
      exact hpair
    have hqcr : q = p → c ≠ r := by
      rintro rfl rfl
      rcases hp with heq | ⟨rfl, rfl⟩
      · exact hsame heq
      · exact hqc.asymm hnodup hab
    have hcqr : c = p → q ≠ r := by
      rintro rfl rfl
      rcases hp with ⟨rfl, rfl⟩ | ⟨rfl, rfl⟩
      · exact hqc.asymm hnodup hab
      · exact hsame ⟨rfl, rfl⟩
    refine (h.pair q c hqc).congr (hlookup hqc.mem_right hqcr) (hlookup hqc.mem_left hcqr) ?_ ?_ ?_
    · rw [hdown]
      rcases eq_or_ne q p with rfl | hqp
      · rw [hself]
        exact hcount c (hqcr rfl)
      · rw [hother hqp]
    · rw [hincoming]
      rcases eq_or_ne c b with rfl | hcb
      · rw [Function.update_self]
        exact hcoming q fun heq => hsame ⟨heq, rfl⟩
      · rw [Function.update_of_ne hcb]
    · rcases eq_or_ne c p with rfl | hcp
      · rw [hself]
        exact fun hphase => hfinished hphase q hqc
      · rw [hother hcp]
        exact (h.pair q c hqc).finished

/-! ### What the slaves do -/

/-- What is known of a connection that has yet to be opened. -/
theorem Mesh.unopened (h : Mesh harbor s) {e : ℕ × ι} (he : e ∈ Slaves.announced (s.slave p) (s.down p)) :
  s.fds.Precedes p e.2 ∧ e.1 = harbor e.2 ∧ (s.slave p).slaves.lookup e.1 = none ∧
    (Slaves.announced (s.slave p) (s.down p)).count e = 1 ∧ (s.incoming e.2).count p = 0 ∧
    (s.slave e.2).slaves.lookup (harbor p) = none
  := by
  obtain ⟨id, r⟩ := e
  obtain ⟨hprecedes, hid⟩ := h.announced p _ he
  dsimp only at hprecedes hid ⊢
  subst hid
  obtain ⟨honce, -, hopened, -⟩ := h.pair p r hprecedes
  have hpos := List.count_pos_iff.mpr he
  refine ⟨hprecedes, rfl, ?_, by omega, by omega, ?_⟩
  · rw [hopened, if_pos he]
  · by_contra hne
    rw [if_neg hne] at honce
    omega

/-- A slave whose place in the queue is taken goes on to another element of it. -/
theorem Mesh.eq_of_id (h : Mesh harbor s) {e e' : ℕ × ι} (he : e ∈ Slaves.announced (s.slave p) (s.down p))
    (he' : e' ∈ Slaves.announced (s.slave p) (s.down p)) (hid : e.1 = e'.1) :
  e = e'
  := by
  obtain ⟨hprecedes, hfst⟩ := h.announced p e he
  obtain ⟨hprecedes', hfst'⟩ := h.announced p e' he'
  have hsnd : e.2 = e'.2 := List.inj_on_of_nodup_map h.ids hprecedes.mem_right hprecedes'.mem_right
    (hfst.symm.trans (hid.trans hfst'))
  exact Prod.ext hid hsnd

/-- The slave is asked to connect to another. -/
theorem Mesh.notice_C [DecidableEq ν] {id : ℕ} {addr : ι} {rest : List (Notice ι ν α)} (h : Mesh harbor s)
    (hp : p ∈ s.fds) (hphase : (s.slave p).phase ≠ .greeting) (hdown : s.down p = .C id addr :: rest)
    (hopening : (s.slave p).opening = none) :
  Mesh harbor ({ s with down := Function.update s.down p rest }.setSlave p
    ((s.slave p).monitor_master (.C id addr)))
  := by
  have hold : Slaves.announced (s.slave p) (s.down p) =
      (id, addr) :: (rest.filterMap Notice.announces ++ (s.slave p).pending) := by
    unfold Slaves.announced
    rw [hdown]
    rfl
  have hmem : (id, addr) ∈ Slaves.announced (s.slave p) (s.down p) := hold ▸ List.mem_cons_self
  obtain ⟨-, -, hlookup, hcount, -⟩ := h.unopened hmem
  rw [hold, List.count_cons_self, Nat.add_eq_right, List.count_eq_zero] at hcount
  rw [Slave.monitor_master]
  cases hqueue : (s.slave p).connect_queue with
  | some queue =>
      have hfresh : id ∉ queue := by
        intro hkey
        obtain ⟨v, hv⟩ := AList.mem_keys.mp hkey |> List.mem_keys.mp
        have hqueued : (id, v) ∈ (s.slave p).pending := by
          unfold Slave.pending Slave.queued
          rw [hqueue]
          exact List.mem_append_left _ (List.mem_map.mpr ⟨⟨id, v⟩, hv, rfl⟩)
        have hv' : (id, v) ∈ Slaves.announced (s.slave p) (s.down p) :=
          hold ▸ List.mem_cons_of_mem _ (List.mem_append_right _ hqueued)
        obtain rfl : v = addr := congrArg Prod.snd (h.eq_of_id hv' hmem rfl)
        exact hcount (List.mem_append_right _ hqueued)
      refine h.local { s.slave p with connect_queue := some (queue.insert id addr) } rest hp rfl ?_
        (fun hready => hready)
        (fun hfinished q hqp => (h.pair q p hqp).finished hfinished) ?_ rfl rfl rfl rfl rfl rfl
      · rw [hold]
        unfold Slaves.announced Slave.pending Slave.queued
        rw [hqueue]
        dsimp only
        rw [AList.entries_insert_of_notMem hfresh]
        exact List.perm_middle
      · intro l₁ l₂ heq
        obtain ⟨h₁, h₂, h₃, h₄, h₅, h₆, h₇, h₈⟩ := h.shape l₁ p l₂ heq
        rw [hdown] at h₃
        refine ⟨h₁, fun hgreeting => absurd hgreeting hphase, fun hne m hm => h₃ hne m (List.mem_cons_of_mem _ hm), h₄,
          fun hne => ⟨rfl, (h₅ hne).2⟩, fun hready => ?_, h₇, h₈⟩
        cases hqueue.symm.trans (h₆ hready)
  | none =>
      dsimp only
      rw [if_pos hlookup]
      refine h.local { s.slave p with connect_queue := none, opening := some (id, addr) } rest hp rfl ?_
        (fun hready => hready)
        (fun hfinished q hqp => (h.pair q p hqp).finished hfinished) ?_ rfl rfl rfl rfl rfl rfl
      · rw [hold]
        unfold Slaves.announced Slave.pending Slave.queued
        rw [hqueue, hopening]
        exact List.perm_middle
      · intro l₁ l₂ heq
        obtain ⟨h₁, h₂, h₃, h₄, h₅, h₆, h₇, h₈⟩ := h.shape l₁ p l₂ heq
        rw [hdown] at h₃
        refine ⟨h₁, fun hgreeting => absurd hgreeting hphase, fun hne m hm => h₃ hne m (List.mem_cons_of_mem _ hm), h₄,
          fun hne => ?_, fun _ => rfl, h₇, h₈⟩
        have hsome := (h₅ hne).1
        rw [hqueue] at hsome
        cases hsome

/-- The slave is greeted. -/
theorem Mesh.greeted {m : Notice ι ν α} {rest : List (Notice ι ν α)} (h : Mesh harbor s) (hnodup : s.fds.Nodup)
    (hp : p ∈ s.fds) (hphase : (s.slave p).phase = .greeting) (hdown : s.down p = m :: rest) :
  Mesh harbor ({ s with down := Function.update s.down p rest }.setSlave p ((s.slave p).greeted m))
  := by
  obtain ⟨l₁, l₂, heq⟩ := List.append_of_mem hp
  obtain ⟨hblank, rest', hrest, hlater⟩ := (h.shape l₁ p l₂ heq).greeting hphase
  obtain ⟨rfl, rfl⟩ := List.cons.inj (hdown.symm.trans hrest)
  rw [Slave.greeted]
  refine h.local { s.slave p with phase := if 0 < l₁.length then .waiting l₁.length else .closing } rest hp
    rfl ?_ (fun hready => ?_) (fun hfinished q hqp => ?_) (fun k₁ k₂ hk => ?_) rfl rfl rfl rfl rfl rfl
  · unfold Slaves.announced
    rw [hdown]
    exact .refl _
  · cases hphase.symm.trans hready
  · -- Nobody has reported before a slave that does not wait.
    dsimp only at hfinished
    split at hfinished
    · rcases hfinished with heq | heq <;> cases heq
    · next hzero =>
        have hmem := hqp.mem_of_eq hnodup heq
        exact absurd (List.length_pos_of_mem hmem) hzero
  · obtain ⟨-, rest'', hrest', -⟩ := (h.shape k₁ p k₂ hk).greeting hphase
    have hlength : l₁.length = k₁.length := Notice.W.inj (List.cons.inj (hdown.symm.trans hrest')).1
    have hqueueing := (h.shape k₁ p k₂ hk).queueing (by rw [hphase]; exact Phase.noConfusion)
    rw [hlength]
    split
    · next hpos =>
        refine ⟨trivial, Phase.noConfusion, fun _ => hlater, fun k hk' => ?_, fun _ => hqueueing, Phase.noConfusion,
          (h.shape k₁ p k₂ hk).linking, (h.shape k₁ p k₂ hk).given⟩
        obtain rfl := Phase.waiting.inj hk'
        refine ⟨rfl, ?_⟩
        rw [hblank.slaves]
        exact hpos
    · exact ⟨trivial, Phase.noConfusion, fun _ => hlater, fun k hk' => Phase.noConfusion hk', fun _ => hqueueing,
        Phase.noConfusion, (h.shape k₁ p k₂ hk).linking, (h.shape k₁ p k₂ hk).given⟩

/-- The slave is told a name. -/
theorem Mesh.notice_N [DecidableEq ν] {name : ν} {a : α} {rest : List (Notice ι ν α)} (h : Mesh harbor s)
    (hp : p ∈ s.fds) (hphase : (s.slave p).phase ≠ .greeting) (hdown : s.down p = .N name a :: rest) :
  Mesh harbor ({ s with down := Function.update s.down p rest }.setSlave p
    ((s.slave p).monitor_master (.N name a)))
  := by
  have hsame : (s.slave p).SameLinks ((s.slave p).monitor_master (.N name a)) := by
    rw [Slave.monitor_master]
    split
    · refine ⟨rfl, rfl, rfl, rfl, rfl, rfl, ?_⟩
      unfold Slave.given Slave.tellName Slave.tell
      rw [List.filterMap_append]
      exact List.append_nil _
    · exact ⟨rfl, rfl, rfl, rfl, rfl, rfl, rfl⟩
  refine h.local _ rest hp hsame.slaves ?_ (fun hready => hsame.phase.trans hready)
    (fun hfinished q hqp => (h.pair q p hqp).finished (by rwa [hsame.phase] at hfinished)) (fun l₁ l₂ heq => ?_) rfl rfl
    rfl rfl rfl rfl
  · unfold Slaves.announced
    rw [hsame.pending, hdown]
    exact .refl _
  · obtain ⟨h₁, h₂, h₃, h₄, h₅, h₆, h₇, h₈⟩ := h.shape l₁ p l₂ heq
    rw [hdown] at h₃
    have hpopped : Shape l₁.length (s.slave p) rest := ⟨h₁, fun hgreeting => absurd hgreeting hphase,
      fun hne m hm => h₃ hne m (List.mem_cons_of_mem _ hm), h₄, h₅, h₆, h₇, h₈⟩
    have hcongr := hpopped.congr [] hsame fun m hm => absurd hm List.not_mem_nil
    rwa [List.append_nil] at hcongr

theorem Mesh.notice [DecidableEq ν] {m : Notice ι ν α} {rest : List (Notice ι ν α)} (h : Mesh harbor s)
    (hnodup : s.fds.Nodup) (hdown : s.down p = m :: rest) (hopening : (s.slave p).opening = none) :
  Mesh harbor ({ s with down := Function.update s.down p rest }.setSlave p ((s.slave p).notice m))
  := by
  have hp : p ∈ s.fds := by
    by_contra hp
    cases hdown.symm.trans (h.blank p hp).2.2
  unfold Slave.notice
  split
  · next hphase => exact h.greeted hnodup hp hphase hdown
  · next hphase =>
      obtain ⟨l₁, l₂, heq⟩ := List.append_of_mem hp
      have hlater := (h.shape l₁ p l₂ heq).later hphase m (hdown ▸ List.mem_cons_self)
      cases m with
      | C id addr => exact h.notice_C hp hphase hdown hopening
      | N name a => exact h.notice_N hp hphase hdown
      | W n => exact False.elim hlater
      | D id => exact False.elim hlater

/-- A slave that another is to connect to listens. -/
theorem Mesh.listens {e : ℕ × ι} (h : Mesh harbor s) (he : e ∈ Slaves.announced (s.slave p) (s.down p)) :
  (s.slave e.2).phase.listens = true
  := by
  obtain ⟨hprecedes, -, -, -, -, hnone⟩ := h.unopened he
  obtain ⟨l₁, l₂, heq⟩ := List.append_of_mem hprecedes.mem_right
  have hlive := (h.shape l₁ e.2 l₂ heq).running
  have hfinished := (h.pair p e.2 hprecedes).finished
  cases hphase : (s.slave e.2).phase with
  | off =>
      rw [hphase] at hlive
      exact absurd hlive id
  | down =>
      rw [hphase] at hlive
      exact absurd hlive id
  | greeting => rfl
  | waiting n => rfl
  | closing => exact absurd hnone (hfinished (.inl hphase))
  | ready => exact absurd hnone (hfinished (.inr hphase))

/-- A slave connects to another. -/
theorem Mesh.opening {r : ι} (h : Mesh harbor s) (hnodup : s.fds.Nodup)
    (hperm : (Slaves.announced (s.slave p) (s.down p)).Perm ((harbor r, r) :: Slaves.announced x (s.down p)))
    (hready : (s.slave p).phase = .ready) (hxready : x.phase = .ready)
    (hslaves : x.slaves = (s.slave p).slaves.insert (harbor r) (some r)) (hqueue : x.connect_queue = none)
    (hlinking : x.linking = none → x.rest = []) (hgiven : x.given = (s.slave p).given ++ [(harbor r, r)]) :
  Mesh harbor ((s.openTo p r).setSlave p x)
  := by
  have hmem : (harbor r, r) ∈ Slaves.announced (s.slave p) (s.down p) := hperm.mem_iff.mpr List.mem_cons_self
  obtain ⟨hprecedes, -, hlookup, hcount, hincoming, hnone⟩ := h.unopened hmem
  dsimp only at hprecedes hlookup hincoming hnone
  have hne : p ≠ r := hprecedes.ne hnodup
  rw [hperm.count_eq, List.count_cons_self, Nat.add_eq_right] at hcount
  unfold State.openTo
  rw [if_pos (h.listens hmem)]
  refine h.connect (s.incoming r ++ [p]) hprecedes (.inl ⟨rfl, rfl⟩) hslaves
    (fun e he => hperm.mem_iff.mpr (List.mem_cons_of_mem _ he)) (fun c hc => ?_) rfl (fun c hc => ?_) ?_
    (fun _ => hxready) (.inr hxready) (fun _ c hc => ?_) (fun l₁ l₂ heq => ?_) hnodup rfl rfl rfl rfl rfl
  · rw [hperm.count_eq, List.count_cons_of_ne]
    exact fun heq => hc (congrArg Prod.snd heq).symm
  · rw [List.count_append, List.count_eq_zero_of_not_mem (mt List.mem_singleton.mp hc), Nat.add_zero]
  · change Pair harbor p r (Function.update s.slave p x p) (Function.update s.slave p x r)
      (Slaves.announced (Function.update s.slave p x p) (s.down p)) _
    rw [Function.update_self, Function.update_of_ne hne.symm]
    constructor
    · rw [hcount, List.count_append, hincoming, List.count_singleton_self, if_pos hnone]
    · exact .inl hnone
    · rw [hslaves, AList.lookup_insert, if_neg (List.count_eq_zero.mp hcount)]
    · exact (h.pair p r hprecedes).finished
  · have hfinished := (h.pair c p hc).finished (.inr hready)
    rw [hslaves]
    rcases eq_or_ne (harbor c) (harbor r) with heq | hcr
    · rw [heq, AList.lookup_insert]
      exact Option.some_ne_none _
    · rwa [AList.lookup_insert_ne hcr]
  · obtain ⟨-, -, h₃, -, -, -, -, h₈⟩ := h.shape l₁ p l₂ heq
    have hphase : x.phase ≠ .greeting := fun heq => Phase.noConfusion (hxready.symm.trans heq)
    refine ⟨?_, fun hgreeting => absurd hgreeting hphase, fun _ => h₃ fun heq => ?_, fun k hk => ?_,
      fun hne => absurd hxready hne, fun _ => hqueue, hlinking, given_insert h₈ hlookup hslaves hgiven⟩
    · rw [hxready]
      trivial
    · cases hready.symm.trans heq
    · cases hxready.symm.trans hk

/-- A slave that has a connection to open has been greeted, and waits no more. -/
theorem Mesh.ready_of_opening (h : Mesh harbor s) (hp : p ∈ s.fds)
    (hopening : (s.slave p).opening ≠ none ∨ (s.slave p).linking ≠ none) :
  (s.slave p).phase = .ready ∧ (s.slave p).connect_queue = none
  := by
  obtain ⟨l₁, l₂, heq⟩ := List.append_of_mem hp
  have hshape := h.shape l₁ p l₂ heq
  have hready : (s.slave p).phase = .ready := by
    by_contra hne
    obtain ⟨-, h₁, h₂, -⟩ := hshape.queueing hne
    exact hopening.elim (fun hne => hne h₁) fun hne => hne h₂
  exact ⟨hready, hshape.ready hready⟩

theorem Mesh.opened {id : ℕ} {r : ι} (h : Mesh harbor s) (hnodup : s.fds.Nodup)
    (hopening : (s.slave p).opening = some (id, r)) :
  Mesh harbor ((s.openTo p r).setSlave p
    ({ s.slave p with opening := none }.connected id r (s.slave r).phase.listens))
  := by
  have hpending : (s.slave p).pending =
      (s.slave p).queued ++ ((id, r) :: ((s.slave p).linking.toList ++ (s.slave p).rest)) := by
    unfold Slave.pending
    rw [hopening]
    rfl
  have hmem : (id, r) ∈ Slaves.announced (s.slave p) (s.down p) := by
    unfold Slaves.announced
    rw [hpending]
    exact List.mem_append_right _ (List.mem_append_right _ List.mem_cons_self)
  obtain ⟨hprecedes, hid, -⟩ := h.unopened hmem
  obtain rfl : id = harbor r := hid
  have hbusy : (s.slave p).opening ≠ none := by
    rw [hopening]
    exact Option.some_ne_none _
  obtain ⟨hready, hqueue⟩ := h.ready_of_opening hprecedes.mem_left (.inl hbusy)
  rw [h.listens hmem]
  obtain ⟨l₁, l₂, heq⟩ := List.append_of_mem hprecedes.mem_left
  refine h.opening hnodup ?_ hready hready rfl hqueue (h.shape l₁ p l₂ heq).linking (given_tell _ _)
  unfold Slaves.announced
  rw [hpending]
  change (_ ++ (_ ++ _ :: _)).Perm (_ :: (_ ++ (_ ++ _)))
  rw [← List.append_assoc, ← List.append_assoc]
  exact List.perm_middle

theorem Mesh.linked {id : ℕ} {r : ι} (h : Mesh harbor s) (hnodup : s.fds.Nodup)
    (hlinking : (s.slave p).linking = some (id, r)) :
  Mesh harbor ((s.openTo p r).setSlave p
    (((s.slave p).connected id r (s.slave r).phase.listens).ready (s.slave p).rest))
  := by
  have hpending : (s.slave p).pending =
      ((s.slave p).queued ++ (s.slave p).opening.toList) ++ ((id, r) :: (s.slave p).rest) := by
    unfold Slave.pending
    rw [hlinking, List.append_assoc]
    rfl
  have hold : Slaves.announced (s.slave p) (s.down p) = ((s.down p).filterMap Notice.announces ++
      ((s.slave p).queued ++ (s.slave p).opening.toList)) ++ ((id, r) :: (s.slave p).rest) := by
    unfold Slaves.announced
    rw [hpending]
    exact (List.append_assoc _ _ _).symm
  have hmem : (id, r) ∈ Slaves.announced (s.slave p) (s.down p) :=
    hold ▸ List.mem_append_right _ List.mem_cons_self
  obtain ⟨hprecedes, hid, -, hcount, -⟩ := h.unopened hmem
  obtain rfl : id = harbor r := hid
  obtain ⟨hready, hqueue⟩ := h.ready_of_opening hprecedes.mem_left
    (.inr (by rw [hlinking]; exact Option.some_ne_none _))
  rw [h.listens hmem]
  have hnone : ∀ e ∈ (s.slave p).rest,
      ((s.slave p).connected (harbor r) r true).slaves.lookup e.1 = none := by
    intro e he
    have hrest : e ∈ Slaves.announced (s.slave p) (s.down p) :=
      hold ▸ List.mem_append_right _ (List.mem_cons_of_mem _ he)
    have hne : e.1 ≠ harbor r := by
      intro heq
      obtain rfl := h.eq_of_id hrest hmem heq
      rw [hold, List.count_append, List.count_cons_self] at hcount
      have hpos := List.count_pos_iff.mpr he
      omega
    change ((s.slave p).slaves.insert (harbor r) (some r)).lookup e.1 = none
    rw [AList.lookup_insert_ne hne]
    exact (h.unopened hrest).2.2.1
  obtain ⟨hphase, hslaves, hqueue', hpending', hrest, hgiven⟩ := ready_stops _ _ hnone
  refine h.opening hnodup ?_ hready (hphase.trans hready) hslaves (hqueue'.trans hqueue) hrest
    (hgiven.trans (given_tell _ _))
  have hnew : Slaves.announced (((s.slave p).connected (harbor r) r true).ready (s.slave p).rest) (s.down p) =
      ((s.down p).filterMap Notice.announces ++ ((s.slave p).queued ++ (s.slave p).opening.toList)) ++
        (s.slave p).rest := by
    unfold Slaves.announced
    rw [hpending', List.append_assoc, List.append_assoc]
    rfl
  rw [hold, hnew]
  exact List.perm_middle

/-- The slave is ready, and goes on with the connections in its queue. -/
theorem Mesh.shakehand (h : Mesh harbor s) (hp : p ∈ s.fds) (hclosing : (s.slave p).phase = .closing) :
  Mesh harbor (s.setSlave p (s.slave p).shakehandReady)
  := by
  obtain ⟨l₁, l₂, heq⟩ := List.append_of_mem hp
  have hne : (s.slave p).phase ≠ .ready := fun heq => Phase.noConfusion (hclosing.symm.trans heq)
  obtain ⟨-, hopening, hlinking, hrest⟩ := (h.shape l₁ p l₂ heq).queueing hne
  have hold : Slaves.announced (s.slave p) (s.down p) =
      (s.down p).filterMap Notice.announces ++ (s.slave p).queued := by
    unfold Slaves.announced Slave.pending
    rw [hopening, hlinking, hrest]
    exact congrArg _ (List.append_nil _)
  have hnone : ∀ e ∈ (s.slave p).queued,
      { s.slave p with phase := .ready, connect_queue := none }.slaves.lookup e.1 = none := fun e he =>
    (h.unopened (hold ▸ List.mem_append_right _ he)).2.2.1
  obtain ⟨hphase, hslaves, hqueue, hpending, hlast, hgiven⟩ := ready_stops
    { s.slave p with phase := .ready, connect_queue := none } (s.slave p).queued hnone
  change Mesh harbor (s.setSlave p ({ s.slave p with phase := .ready, connect_queue := none }.ready
    (s.slave p).queued))
  refine h.local _ (s.down p) hp hslaves ?_ (fun _ => hphase)
    (fun _ q hqp => (h.pair q p hqp).finished (.inl hclosing)) (fun k₁ k₂ hk => ?_) rfl rfl rfl rfl rfl
    (Function.update_eq_self p s.down).symm
  · rw [hold]
    unfold Slaves.announced
    rw [hpending]
    change (_ ++ ([] ++ ((s.slave p).opening.toList ++ (s.slave p).queued))).Perm _
    rw [hopening]
    exact .refl _
  · obtain ⟨-, -, hlater, -, -, -, -, hentries⟩ := h.shape k₁ p k₂ hk
    refine ⟨?_, fun hgreeting => ?_, fun _ => hlater fun hgreeting => ?_, fun k hwaiting => ?_,
      fun hnot => absurd hphase hnot, fun _ => hqueue, hlast, ?_⟩
    · rw [hphase]
      trivial
    · cases hphase.symm.trans hgreeting
    · cases hclosing.symm.trans hgreeting
    · cases hphase.symm.trans hwaiting
    · rw [hslaves, hgiven]
      exact hentries

/-- The slave waits no more when it knows as many harbors as have reported before. -/
theorem Mesh.all_accepted {l₁ l₂ : List ι} {keys : List ℕ} (h : Mesh harbor s) (heq : s.fds = l₁ ++ p :: l₂)
    (hkeys : keys.Nodup) (hlength : l₁.length ≤ keys.length)
    (hsubset : ∀ id ∈ keys, ∃ q, id = harbor q ∧ s.fds.Precedes q p) (hnodup : s.fds.Nodup) (hq : s.fds.Precedes q p) :
  harbor q ∈ keys
  := by
  have hids : (l₁.map harbor).Nodup := by
    have hall := h.ids
    rw [heq, List.map_append] at hall
    exact (List.nodup_append.mp hall).1
  have hsub : keys ⊆ l₁.map harbor := by
    intro id hid
    obtain ⟨c, rfl, hc⟩ := hsubset id hid
    exact List.mem_map.mpr ⟨c, hc.mem_of_eq hnodup heq, rfl⟩
  have hperm := (List.subperm_of_subset hkeys hsub).perm_of_length_le (by rwa [List.length_map])
  exact hperm.mem_iff.mpr (List.mem_map.mpr ⟨q, hq.mem_of_eq hnodup heq, rfl⟩)

/-- A connection that waits is accepted. -/
theorem Pair.accept (h : Pair harbor q p x y l incoming) (hmem : q ∈ incoming)
    (hlookup : y'.slaves.lookup (harbor q) = some (some q)) :
  Pair harbor q p x y' l (incoming.erase q)
  := by
  obtain ⟨honce, -, hopened, -⟩ := h
  have hne : y'.slaves.lookup (harbor q) ≠ none := by
    rw [hlookup]
    exact Option.some_ne_none _
  have hpos := List.count_pos_iff.mpr hmem
  refine ⟨?_, .inr hlookup, hopened, fun _ => hne⟩
  rw [if_neg hne, List.count_erase_self]
  split at honce <;> omega

/-- A slave accepts the connection of another. -/
theorem Mesh.accept [DecidableEq ν] {byte : Bool} (h : Mesh harbor s) (hsound : Sound pack s) (hmem : q ∈ s.incoming p)
    (hgreeted : (s.slave p).phase ≠ .greeting)
    (hbyte : byte = true ∨ (s.slave q).phase = .down ∨ (s.slave p).phase.listens = false) :
  Mesh harbor ({ s with incoming := Function.update s.incoming p ((s.incoming p).erase q) }.setSlave p
    ((s.slave p).accepted q (if byte then some (harbor q) else none)))
  := by
  have hnodup := hsound.1.nodup_fds
  have hprecedes := h.incoming p q hmem
  have hne : q ≠ p := hprecedes.ne hnodup
  obtain ⟨honce, -, -, hfinished⟩ := h.pair q p hprecedes
  have hpos := List.count_pos_iff.mpr hmem
  have hnone : (s.slave p).slaves.lookup (harbor q) = none := by
    by_contra hne
    rw [if_neg hne] at honce
    omega
  obtain ⟨l₁, l₂, heq⟩ := List.append_of_mem hprecedes.mem_right
  have hshape := h.shape l₁ p l₂ heq
  obtain rfl : byte = true := by
    refine hbyte.resolve_right ?_
    rintro (hdead | hlistens)
    · obtain ⟨id, hid⟩ := hsound.1.mem_fds.mp hprecedes.mem_left
      cases hid.symm.trans (h.dead q hdead)
    · -- Whoever has been accepted is in the table.
      have hlive := hshape.running
      cases hphase : (s.slave p).phase with
      | off =>
          rw [hphase] at hlive
          exact hlive
      | down =>
          rw [hphase] at hlive
          exact hlive
      | greeting => exact hgreeted hphase
      | waiting n =>
          rw [hphase] at hlistens
          cases hlistens
      | closing => exact hfinished (.inl hphase) hnone
      | ready => exact hfinished (.inr hphase) hnone
  rw [if_pos rfl]
  obtain ⟨φ, hx, hφ⟩ := accepted_cases (s.slave p) q (harbor q) hnone
  rw [hx]
  have hready : (s.slave p).phase = .ready → φ = .ready := by
    intro hready
    obtain ⟨rfl, -⟩ | ⟨-, n, hwaiting, -⟩ := hφ
    · exact hready
    · cases hready.symm.trans hwaiting
  refine h.connect _ hprecedes (.inr ⟨rfl, rfl⟩) ?_ ?_ ?_ rfl (fun c hc => List.count_erase_of_ne hc) ?_ ?_ (.inl rfl)
    ?_ ?_ hnodup rfl rfl rfl rfl rfl
  · rfl
  · exact fun e he => he
  · exact fun c _ => rfl
  · change Pair harbor q p (Function.update s.slave p _ q) (Function.update s.slave p _ p)
      (Slaves.announced (Function.update s.slave p _ q) (s.down q)) _
    rw [Function.update_of_ne hne, Function.update_self]
    exact (h.pair q p hprecedes).accept hmem (AList.lookup_insert _)
  · exact hready
  · intro hend c hc
    change ((s.slave p).slaves.insert (harbor q) (some q)).lookup (harbor c) ≠ none
    obtain ⟨rfl, -⟩ | ⟨-, n, hwaiting, hle⟩ := hφ
    · have hold := (h.pair c p hc).finished hend
      rcases eq_or_ne (harbor c) (harbor q) with heq | hcq
      · rw [heq, AList.lookup_insert]
        exact Option.some_ne_none _
      · rwa [AList.lookup_insert_ne hcq]
    · obtain ⟨rfl, -⟩ := hshape.waiting n hwaiting
      have hall := h.all_accepted heq (AList.keys_nodup _) hle (fun id hid => ?_) hnodup hc
      · exact fun hnone => AList.lookup_eq_none.mp hnone hall
      · rcases (AList.mem_insert _).mp (AList.mem_keys.mpr hid) with rfl | hold
        · exact ⟨q, rfl, hprecedes⟩
        · obtain ⟨r, hr, hrp⟩ := h.keys p id hold
          exact ⟨r, hr, hrp.resolve_right fun hnot => Phase.noConfusion (hwaiting.symm.trans hnot.1)⟩
  · intro k₁ k₂ hk
    obtain ⟨h₁, h₂, h₃, h₄, h₅, h₆, h₇, h₈⟩ := h.shape k₁ p k₂ hk
    have hentries := given_insert h₈ hnone rfl (given_tell ({ s.slave p with
      slaves := (s.slave p).slaves.insert (harbor q) (some q) }.monitor_clear (harbor q)) (.A q (harbor q)))
    obtain ⟨rfl, hlt⟩ | ⟨rfl, n, hwaiting, -⟩ := hφ
    · refine ⟨h₁, fun hgreeting => absurd hgreeting hgreeted, h₃, fun k hk => ?_, h₅, h₆, h₇, hentries⟩
      obtain ⟨rfl, -⟩ := h₄ k hk
      exact ⟨rfl, hlt _ hk⟩
    · have hqueueing := h₅ fun heq => Phase.noConfusion (hwaiting.symm.trans heq)
      exact ⟨trivial, Phase.noConfusion, fun _ => h₃ hgreeted, fun k hk => Phase.noConfusion hk, fun _ => hqueueing,
        Phase.noConfusion, h₇, hentries⟩

end Local

/-! ### Runs without failures -/

section Runs

variable {s t : State ι ν α} {p q : ι}

/-- No process dies and no connection breaks. -/
def Calm : Step ι ν α → Prop
  | .harborDown _ _ => False
  | .crash _ => False
  | _ => True

/-- A slave does something else than to go on with its connections. -/
theorem Mesh.setSlave (h : Mesh harbor s) {x : Slave ι ν α} (hx : (s.slave p).SameLinks x) :
  Mesh harbor (s.setSlave p x)
  := by
  refine h.idle rfl rfl (fun q => ?_) (fun _ hq => hq) h.up fun q =>
    ⟨[], (List.append_nil _).symm, fun m hm => absurd hm List.not_mem_nil, fun _ => rfl⟩
  rcases eq_or_ne q p with rfl | hne
  · rw [show (s.setSlave q x).slave q = x from Function.update_self _ _ _]
    exact hx
  · rw [show (s.setSlave p x).slave q = s.slave q from Function.update_of_ne hne _ _]
    exact ⟨rfl, rfl, rfl, rfl, rfl, rfl, rfl⟩

/-- A slave sends a package once it has reported itself. -/
theorem Mesh.send (h : Mesh harbor s) (m : Report ι ν α) :
  Mesh harbor (s.send p m)
  := by
  refine h.idle rfl rfl (fun q => ⟨rfl, rfl, rfl, rfl, rfl, rfl, rfl⟩) (fun _ hq => hq) (fun q hq => ?_) fun q =>
    ⟨[], (List.append_nil _).symm, fun m hm => absurd hm List.not_mem_nil, fun _ => rfl⟩
  obtain ⟨rest, hrest⟩ := h.up q hq
  rcases eq_or_ne q p with rfl | hne
  · refine ⟨rest ++ [m], ?_⟩
    rw [show (s.send q m).up q = s.up q ++ [m] from Function.update_self _ _ _, hrest]
    rfl
  · rw [show (s.send p m).up q = s.up q from Function.update_of_ne hne _ _]
    exact ⟨rest, hrest⟩

/-- The master reads a package of a slave that it monitors. -/
theorem Mesh.read (h : Mesh harbor s) {id : ℕ} {rest : List (Report ι ν α)} (hconn : s.conn p = .monitor id) :
  Mesh harbor { s with up := Function.update s.up p rest }
  := by
  refine h.idle rfl rfl (fun q => ⟨rfl, rfl, rfl, rfl, rfl, rfl, rfl⟩) (fun _ hq => hq) (fun q hq => ?_) fun q =>
    ⟨[], (List.append_nil _).symm, fun m hm => absurd hm List.not_mem_nil, fun _ => rfl⟩
  have hne : q ≠ p := by
    rintro rfl
    cases hconn.symm.trans hq
  dsimp only
  rw [Function.update_of_ne hne]
  exact h.up q hq

/-- The master tells a name to slaves that it monitors. -/
theorem Mesh.write (h : Mesh harbor s) {fds : List ι} (hfds : ∀ q ∈ fds, q ∈ s.fds) (name : ν) (a : α) :
  Mesh harbor (s.write fds (.N name a))
  := by
  refine h.idle rfl rfl (fun q => ⟨rfl, rfl, rfl, rfl, rfl, rfl, rfl⟩) (fun _ hq => hq) h.up fun q =>
    ⟨_, State.write_down _ _ _ _, fun m hm => ⟨name, a, (List.mem_replicate.mp hm).2⟩, fun hq => ?_⟩
  rw [List.count_eq_zero_of_not_mem fun hmem => hq (hfds q hmem), List.replicate_zero]

theorem mesh_start :
  Mesh harbor (State.start ι ν α)
  := by
  have hprecedes {p q : ι} (h : ([] : List ι).Precedes p q) : False := List.not_mem_nil h.mem_left
  refine ⟨rfl, List.nodup_nil, fun p hp => ?_, fun p hp => ?_, fun p _ => ⟨⟨rfl, rfl, rfl, rfl, rfl, rfl⟩, rfl, rfl⟩,
    fun l₁ p l₂ heq => ?_, fun q e he => absurd he List.not_mem_nil, fun p q hq => absurd hq List.not_mem_nil,
    fun p id hid => absurd hid (AList.notMem_empty id), fun q p hqp => (hprecedes hqp).elim⟩
  · cases hp
  · cases hp
  · exact absurd heq.symm (List.append_ne_nil_of_right_ne_nil l₁ (List.cons_ne_nil p l₂))

variable [DecidableEq ν]

theorem Mesh.dispatch_slave {m : Report ι ν α} {rest : List (Report ι ν α)} {slave_id : ℕ} (h : Mesh harbor s)
    (hsound : Sound pack s) (hconn : s.conn p = .monitor slave_id) (hup : s.up p = m :: rest) :
  Mesh harbor ({ s with up := Function.update s.up p rest }.dispatch_slave pack p slave_id m)
  := by
  have hread : Mesh harbor { s with up := Function.update s.up p rest } := h.read hconn
  cases m with
  | H id addr => exact hread
  | R name a =>
      rw [State.dispatch_slave]
      dsimp only
      rw [if_pos ((hsound.2 p).fits name a (hup ▸ List.mem_cons_self))]
      refine Mesh.write ?_ (fun _ hq => hq) name a
      exact hread.idle rfl rfl (fun q => ⟨rfl, rfl, rfl, rfl, rfl, rfl, rfl⟩) (fun _ hq => hq) hread.up fun q =>
        ⟨[], (List.append_nil _).symm, fun m hm => absurd hm List.not_mem_nil, fun _ => rfl⟩
  | Q name =>
      rw [State.dispatch_slave]
      split
      · exact hread
      · next a hsome =>
          rw [if_pos (hsound.1.fits name a hsome)]
          refine hread.write (fun q hq => ?_) name a
          rw [List.mem_singleton.mp hq]
          exact hsound.1.mem_fds.mpr ⟨slave_id, hconn⟩

theorem Mesh.handshake {m : Report ι ν α} {rest : List (Report ι ν α)} (h : Mesh harbor s) (hsound : Sound pack s)
    (hconn : s.conn p = .handshake) (hup : s.up p = m :: rest) :
  Mesh harbor ({ s with up := Function.update s.up p rest }.handshake p m)
  := by
  obtain ⟨rest', hreport⟩ := h.up p hconn
  obtain ⟨rfl, rfl⟩ := List.cons.inj (hup.symm.trans hreport)
  rw [State.handshake]
  split
  · -- The id is taken: the connection is closed.
    refine h.idle rfl rfl (fun q => ⟨rfl, rfl, rfl, rfl, rfl, rfl, rfl⟩) (fun q hq => ?_) (fun q hq => ?_) fun q =>
      ⟨[], (List.append_nil _).symm, fun m hm => absurd hm List.not_mem_nil, fun _ => rfl⟩
    · dsimp only
      rcases eq_or_ne q p with rfl | hne
      · exact Function.update_self _ _ _
      · rwa [Function.update_of_ne hne]
    · dsimp only at hq ⊢
      have hne : q ≠ p := by
        rintro rfl
        rw [Function.update_self] at hq
        cases hq
      rw [Function.update_of_ne hne] at hq
      rw [Function.update_of_ne hne]
      exact h.up q hq
  · next hid =>
      rw [not_or, Bool.not_eq_true, List.any_eq_false] at hid
      have hfresh : harbor p ∉ s.fds.map harbor := by
        intro hmem
        obtain ⟨q, hq, heq⟩ := List.mem_map.mp hmem
        have hnode : (⟨harbor q, some q, q⟩ : Node ι) ∈ s.slave_node := by
          rw [h.nodes]
          exact List.mem_map.mpr ⟨q, hq, rfl⟩
        exact hid.2 _ hnode (decide_eq_true heq)
      refine h.report hsound hconn hfresh ?_ rfl rfl rfl rfl (fun q hne => Function.update_of_ne hne _ _) fun q => ?_
      · exact List.filterMap_append
      · dsimp only
        rw [State.write_down, State.write_down]
        rfl

theorem Mesh.REGISTER {name : ν} {handle : α} (h : Mesh harbor s) :
  Mesh harbor (s.REGISTER pack p name handle)
  := by
  unfold State.REGISTER
  dsimp only
  split
  · apply Mesh.send
    exact h.setSlave ⟨rfl, rfl, rfl, rfl, rfl, rfl, (given_tell _ _).trans (List.append_nil _)⟩
  · exact h.setSlave ⟨rfl, rfl, rfl, rfl, rfl, rfl, rfl⟩

theorem Mesh.QUERYNAME {name : ν} {r : ℕ} (h : Mesh harbor s) :
  Mesh harbor (s.QUERYNAME pack p name r)
  := by
  unfold State.QUERYNAME
  split
  · exact h.setSlave ⟨rfl, rfl, rfl, rfl, rfl, rfl, rfl⟩
  · dsimp only
    split
    · split
      · apply Mesh.send
        exact h.setSlave ⟨rfl, rfl, rfl, rfl, rfl, rfl, rfl⟩
      · exact h
    · exact h.setSlave ⟨rfl, rfl, rfl, rfl, rfl, rfl, rfl⟩

theorem Mesh.ask {name : ν} (h : Mesh harbor s) :
  Mesh harbor (s.ask pack p name)
  := by
  unfold State.ask
  split
  · exact h.setSlave ⟨rfl, rfl, rfl, rfl, rfl, rfl, (given_tell _ _).trans (List.append_nil _)⟩
  · split
    · exact h.send _
    · exact h

theorem Mesh.step {l : Step ι ν α} (h : Mesh harbor s) (hsound : Sound pack s) (hcalm : Calm l)
    (hstep : step pack harbor s l = some t) :
  Mesh harbor t
  := by
  have hnodup := hsound.1.nodup_fds
  cases moves_of_step pack harbor hstep with
  | @join p hoff =>
      have hp : p ∉ s.fds := by
        intro hmem
        obtain ⟨id, hid⟩ := hsound.1.mem_fds.mp hmem
        cases ((hsound.2 p).idle hoff).symm.trans hid
      refine h.outside hp (fun q hne => Function.update_of_ne hne _ _) ?_ (fun hdown => ?_) (fun _ => ⟨[], ?_⟩) rfl
        (fun q hne => ⟨Function.update_of_ne hne _ _, Function.update_of_ne hne _ _⟩) rfl rfl
      · dsimp only
        rw [Function.update_self]
        obtain ⟨h₁, h₂, h₃, h₄, h₅, h₆⟩ := (h.blank p hp).1
        exact ⟨h₁, h₂, h₃, h₄, h₅, h₆⟩
      · dsimp only at hdown
        rw [Function.update_self] at hdown
        cases hdown
      · exact Function.update_self _ _ _
  | handshake hconn hup => exact h.handshake hsound hconn hup
  | dispatch hconn hup => exact h.dispatch_slave hsound hconn hup
  | loseHandshake hdown hconn => cases (h.dead _ hdown).symm.trans hconn
  | lose hdown hconn => cases (h.dead _ hdown).symm.trans hconn
  | notice hdown hlive hopening => exact h.notice hnodup hdown hopening
  | @refused p hphase hconn =>
      have hp : p ∉ s.fds := by
        intro hmem
        obtain ⟨id, hid⟩ := hsound.1.mem_fds.mp hmem
        cases hconn.symm.trans hid
      refine h.outside hp (fun q hne => Function.update_of_ne hne _ _) ?_ (fun _ => hconn) (fun hnot => ?_) rfl
        (fun q hne => ⟨rfl, rfl⟩) rfl rfl
      · rw [show (s.setSlave p _).slave p = _ from Function.update_self _ _ _]
        obtain ⟨h₁, h₂, h₃, h₄, h₅, h₆⟩ := (h.blank p hp).1
        exact ⟨h₁, h₂, h₃, h₄, h₅, h₆⟩
      · cases hconn.symm.trans hnot
  | opened hopening => exact h.opened hnodup hopening
  | linked hlinking => exact h.linked hnodup hlinking
  | accept hmem hlive hgreeted hbyte => exact h.accept hsound hmem hgreeted hbyte
  | @shakehand p hclosing =>
      refine h.shakehand ?_ hclosing
      refine hsound.1.mem_fds.mpr ((hsound.2 p).monitored ?_ ?_)
      · rw [hclosing]
        trivial
      · rw [hclosing]
        exact Phase.noConfusion
  | REGISTER => exact h.REGISTER
  | QUERYNAME => exact h.QUERYNAME
  | ask => exact h.ask
  | LINK =>
      refine h.setSlave ?_
      unfold Slave.LINK
      split <;> exact ⟨rfl, rfl, rfl, rfl, rfl, rfl, rfl⟩
  | CONNECT =>
      refine h.setSlave ?_
      unfold Slave.CONNECT
      split <;> exact ⟨rfl, rfl, rfl, rfl, rfl, rfl, rfl⟩
  | harborDown => exact absurd hcalm id
  | crash => exact absurd hcalm id

theorem mesh_of_reaches (h : (network pack harbor).Reaches (fun _ => Calm) s) :
  Sound pack s ∧ Mesh harbor s
  := by
  refine Machine.invariant (P := fun s => Sound pack s ∧ Mesh harbor s) ?_ ?_ h
  · rintro s rfl
    exact ⟨sound_start, mesh_start⟩
  · exact fun s l t hs hcalm hstep => ⟨hs.1.step hstep, hs.2.step hs.1 hcalm hstep⟩

/-- A step of the slaves and the master that needs nobody else. -/
def Internal : Step ι ν α → Prop
  | .receive _ => True
  | .notice _ => True
  | .opened _ => True
  | .linked _ => True
  | .accept _ _ true => True
  | .shakehand _ => True
  | _ => False

/-- Nothing is left to be done. -/
def Quiescent (pack : Packing ν α) (harbor : ι → ℕ) (s : State ι ν α) : Prop :=
  ∀ l, Internal l → Slaves.step pack harbor s l = none

/-- A slave of which nothing is left to be done waits for other slaves or is ready. -/
theorem Mesh.at_rest (h : Mesh harbor s) (hquiet : Quiescent pack harbor s) (hp : p ∈ s.fds) :
  s.incoming p = [] ∧ (∃ n, (s.slave p).phase = .waiting n) ∨
    (s.slave p).phase = .ready ∧ Slaves.announced (s.slave p) (s.down p) = [] ∧ s.incoming p = []
  := by
  obtain ⟨l₁, l₂, heq⟩ := List.append_of_mem hp
  have hshape := h.shape l₁ p l₂ heq
  have hlive := hshape.running
  have hopening : (s.slave p).opening = none := by
    cases hopening : (s.slave p).opening with
    | none => rfl
    | some e =>
        have hnone := hquiet (.opened p) trivial
        rw [Slaves.step, hopening] at hnone
        dsimp only at hnone
        rw [if_pos hlive] at hnone
        cases hnone
  have hlinking : (s.slave p).linking = none := by
    cases hlinking : (s.slave p).linking with
    | none => rfl
    | some e =>
        have hnone := hquiet (.linked p) trivial
        rw [Slaves.step, hlinking] at hnone
        dsimp only at hnone
        rw [if_pos hlive] at hnone
        cases hnone
  have hdown : s.down p = [] := by
    cases hdown : s.down p with
    | nil => rfl
    | cons m rest =>
        have hnone := hquiet (.notice p) trivial
        rw [Slaves.step, hdown] at hnone
        dsimp only at hnone
        rw [if_pos ⟨hlive, hopening⟩] at hnone
        cases hnone
  have hgreeted : (s.slave p).phase ≠ .greeting := by
    intro hgreeting
    obtain ⟨-, rest, hrest, -⟩ := hshape.greeting hgreeting
    cases hdown.symm.trans hrest
  have hincoming : s.incoming p = [] := by
    refine List.eq_nil_iff_forall_not_mem.mpr fun q hq => ?_
    have hnone := hquiet (.accept p q true) trivial
    rw [Slaves.step, if_pos ⟨hq, hlive, hgreeted, .inl rfl⟩] at hnone
    cases hnone
  cases hphase : (s.slave p).phase with
  | off =>
      rw [hphase] at hlive
      exact absurd hlive id
  | down =>
      rw [hphase] at hlive
      exact absurd hlive id
  | greeting => exact absurd hphase hgreeted
  | waiting n => exact .inl ⟨hincoming, n, rfl⟩
  | closing =>
      have hnone := hquiet (.shakehand p) trivial
      rw [Slaves.step, if_pos hphase] at hnone
      cases hnone
  | ready =>
      refine .inr ⟨rfl, ?_, hincoming⟩
      unfold Slaves.announced Slave.pending Slave.queued
      rw [hdown, hshape.ready hphase, hopening, hlinking, hshape.linking hlinking]
      rfl

/-- When nothing is left to be done every slave is ready: those before it have connected to it. -/
theorem Mesh.all_ready (h : Mesh harbor s) (hquiet : Quiescent pack harbor s) (l₁ : List ι) :
  ∀ l₂, s.fds = l₁ ++ l₂ → ∀ p ∈ l₁, (s.slave p).phase = .ready ∧ Slaves.announced (s.slave p) (s.down p) = [] ∧
    s.incoming p = []
  := by
  induction l₁ using List.reverseRecOn with
  | nil => exact fun _ _ p hp => absurd hp List.not_mem_nil
  | append_singleton l₁ r ih =>
      intro l₂ heq p hp
      rw [List.append_assoc, List.singleton_append] at heq
      have hbefore := ih (r :: l₂) heq
      rcases List.mem_append.mp hp with hp | hp
      · exact hbefore p hp
      obtain rfl := List.mem_singleton.mp hp
      refine (h.at_rest hquiet (heq ▸ List.mem_append_right _ List.mem_cons_self)).resolve_left ?_
      rintro ⟨hincoming, n, hwaiting⟩
      obtain ⟨rfl, hlt⟩ := (h.shape l₁ p l₂ heq).waiting n hwaiting
      have hsub : l₁.map harbor ⊆ (s.slave p).slaves.keys := by
        intro id hid
        obtain ⟨q, hq, rfl⟩ := List.mem_map.mp hid
        have honce := (h.pair q p (.of_eq hq heq)).once
        rw [(hbefore q hq).2.1, hincoming] at honce
        refine AList.mem_keys.mp ?_
        by_contra hnone
        rw [if_pos (AList.lookup_eq_none.mpr hnone)] at honce
        cases honce
      have hids : (l₁.map harbor).Nodup := by
        have hall := h.ids
        rw [heq, List.map_append] at hall
        exact (List.nodup_append.mp hall).1
      have hle := (List.subperm_of_subset hids hsub).length_le
      rw [List.length_map] at hle
      exact absurd hlt (Nat.not_lt_of_le hle)

/-- While no process dies and no connection breaks, a harbor service is given at most one connection for an id; and
when nothing is left to be done all slaves are ready, and each harbor service has been given a connection to every
other one. -/
theorem connected_once (h : (network pack harbor).Reaches (fun _ => Calm) s) :
  (∀ p, ((s.slave p).given.map Prod.fst).Nodup) ∧
    (Quiescent pack harbor s → ∀ p ∈ s.fds, (s.slave p).phase = .ready ∧
      ∀ q ∈ s.fds, q ≠ p → (harbor q, q) ∈ (s.slave p).given)
  := by
  obtain ⟨hsound, hmesh⟩ := mesh_of_reaches h
  constructor
  · intro p
    by_cases hp : p ∈ s.fds
    · obtain ⟨l₁, l₂, heq⟩ := List.append_of_mem hp
      have hgiven := congrArg (List.map Prod.fst) (hmesh.shape l₁ p l₂ heq).given
      rw [List.map_map, List.map_map] at hgiven
      have hkeys : (s.slave p).slaves.keys = ((s.slave p).given.map Prod.fst).reverse := by
        rw [← List.map_reverse]
        exact hgiven
      rw [← List.nodup_reverse, ← hkeys]
      exact AList.keys_nodup _
    · rw [(hmesh.blank p hp).1.given]
      exact List.nodup_nil
  · intro hquiet p hp
    have hall := hmesh.all_ready hquiet s.fds [] (List.append_nil _).symm
    refine ⟨(hall p hp).1, fun q hq hne => ?_⟩
    have hlookup : (s.slave p).slaves.lookup (harbor q) = some (some q) := by
      obtain hqp | hpq := List.Precedes.total hq hp hne
      · have hpair := hmesh.pair q p hqp
        exact hpair.accepted.resolve_left (hpair.finished (.inr (hall p hp).1))
      · rw [(hmesh.pair p q hpq).opened, (hall p hp).2.1]
        exact if_neg List.not_mem_nil
    obtain ⟨l₁, l₂, heq⟩ := List.append_of_mem hp
    have hentry : (harbor q, some q) ∈
        (s.slave p).slaves.entries.map fun e : (_ : ℕ) × Option ι => (e.1, e.2) :=
      List.mem_map.mpr ⟨⟨harbor q, some q⟩, AList.mem_lookup_iff.mp hlookup, rfl⟩
    rw [(hmesh.shape l₁ p l₂ heq).given] at hentry
    obtain ⟨e, he, hpair⟩ := List.mem_map.mp hentry
    obtain ⟨hid, hfd⟩ := Prod.mk.inj hpair
    rw [← hid, ← Option.some.inj hfd]
    exact List.mem_reverse.mp he

/-- Two processes: the second reports when the first is ready. -/
def twoJoin : List (Step ℕ ℕ ℕ) :=
  [.join 1, .receive 1, .notice 1, .shakehand 1, .join 2, .receive 2, .notice 2, .notice 1, .opened 1,
    .accept 2 1 true, .shakehand 2]

theorem connected_once_twoJoin :
  ∃ s, (network ⟨fun _ _ => 0, fun _ => 0⟩ id).exec (.start ℕ ℕ ℕ) twoJoin = some s ∧
    ((s.slave 2).given.map Prod.fst).Nodup ∧ (s.slave 2).given = [(1, 1)] ∧ (s.slave 1).given = [(2, 2)]
  := by
  have hstart :
      (network (ι := ℕ) (ν := ℕ) (α := ℕ) ⟨fun _ _ => 0, fun _ => 0⟩ id).Reaches (fun _ => Calm) (.start ℕ ℕ ℕ) :=
    .init rfl
  have hguarded : (network ⟨fun _ _ => 0, fun _ => 0⟩ id).Guarded (fun _ => Calm) (.start ℕ ℕ ℕ) twoJoin := by
    simp [twoJoin, Machine.Guarded, Calm]
  exact ⟨_, rfl, (connected_once (hstart.exec twoJoin hguarded rfl)).1 2, rfl, rfl⟩

end Runs

end Slaves

end Skynet
