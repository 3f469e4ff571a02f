import FWServer.Skynet.Slaves
import Mathlib.Data.List.Nodup

/-!
# The names known to the slaves

What a slave knows of the names, once it has read what the master has written to it, is what the master knows of
them, but for what it has registered itself and the master has not read yet.  Two things spoil it.  The master keeps
the first address that is registered for a name, and tells the slaves of every one; and a slave keeps a name that is
too long to be sent.

A request that a slave does not answer at once waits for an event that has not happened yet: a query waits for a
package on its way or for a name that the master does not know, `LINK` waits while there is a connection and
`CONNECT` while there is none.
-/

namespace Skynet

namespace Slaves

variable {ι ν α : Type} {pack : Packing ν α} {harbor : ι → ℕ}

/-! ### What is written -/

namespace State

variable [DecidableEq ι] {s : State ι ν α} {p : ι} {m : Notice ι ν α}

theorem write_down (s : State ι ν α) (fds : List ι) (m : Notice ι ν α) (p : ι) :
  (s.write fds m).down p = s.down p ++ List.replicate (fds.count p) m
  := by
  unfold write
  change (fds.foldl _ s.down) p = _
  generalize s.down = down
  induction fds generalizing down with
  | nil => exact (List.append_nil _).symm
  | cons fd fds ih =>
      rw [List.foldl_cons, ih, List.count_cons]
      rcases eq_or_ne fd p with rfl | hne
      · rw [Function.update_self, List.append_assoc, beq_self_eq_true, if_pos rfl, List.replicate_succ,
          List.singleton_append]
      · rw [Function.update_of_ne hne.symm, beq_false_of_ne hne, if_neg Bool.false_ne_true, Nat.add_zero]

end State

/-! ### What a slave does with its connections -/

/-- The response waits for the end of a connection. -/
def Wait.links : Wait → Bool
  | .LINK _ => true
  | .CONNECT _ => false

namespace Slave

/-- Every response waits for something that has not happened yet. -/
def Watches (x : Slave ι ν α) : Prop :=
  ∀ id, ∀ w ∈ x.monitor id, (x.connection id).isSome = w.links

variable {x y z : Slave ι ν α} {id : ℕ}

theorem Watches.congr (h : x.Watches) (hmonitor : y.monitor = x.monitor)
    (hconnection : ∀ id, (y.connection id).isSome = (x.connection id).isSome) :
  y.Watches
  := by
  intro id w hw
  rw [hmonitor] at hw
  rw [hconnection]
  exact h id w hw

/-- The responses that wait for an id are given as its connection changes. -/
theorem Watches.clear (h : x.Watches) (hmonitor : y.monitor = Function.update x.monitor id [])
    (hconnection : ∀ id', id' ≠ id → y.connection id' = x.connection id') :
  y.Watches
  := by
  intro id' w hw
  rw [hmonitor] at hw
  rcases eq_or_ne id' id with rfl | hne
  · rw [Function.update_self] at hw
    exact absurd hw List.not_mem_nil
  · rw [Function.update_of_ne hne] at hw
    rw [hconnection id' hne]
    exact h id' w hw

/-- One more response waits for an id. -/
theorem Watches.add {w : Wait} (h : x.Watches)
    (hmonitor : y.monitor = Function.update x.monitor id (x.monitor id ++ [w])) (hslaves : y.slaves = x.slaves)
    (hid : (x.connection id).isSome = w.links) :
  y.Watches
  := by
  intro id' w' hw
  rw [hmonitor] at hw
  change ((y.slaves.lookup id').join).isSome = _
  rw [hslaves]
  rcases eq_or_ne id' id with rfl | hne
  · rw [Function.update_self] at hw
    rcases List.mem_append.mp hw with hw | hw
    · exact h id' w' hw
    · obtain rfl := List.mem_singleton.mp hw
      exact hid
  · rw [Function.update_of_ne hne] at hw
    exact h id' w' hw

theorem connection_insert_self (x : Slave ι ν α) (id : ℕ) (v : Option ι) :
  { x with slaves := x.slaves.insert id v }.connection id = v
  := by
  unfold connection
  rw [AList.lookup_insert]
  rfl

theorem connection_insert_of_ne (x : Slave ι ν α) (v : Option ι) {id' : ℕ} (hne : id' ≠ id) :
  { x with slaves := x.slaves.insert id v }.connection id' = x.connection id'
  := by
  unfold connection
  rw [AList.lookup_insert_ne hne]

/-- The slave goes on with the names it knows and the queries that wait. -/
structure Keeps (x y : Slave ι ν α) : Prop where
  phase : y.phase = x.phase
  globalname : y.globalname = x.globalname
  queryname : y.queryname = x.queryname
  watches : x.Watches → y.Watches

theorem Keeps.refl (x : Slave ι ν α) :
  x.Keeps x
  := ⟨rfl, rfl, rfl, id⟩

theorem Keeps.trans (h : x.Keeps y) (h' : y.Keeps z) :
  x.Keeps z
  := ⟨h'.phase.trans h.phase, h'.globalname.trans h.globalname, h'.queryname.trans h.queryname,
    h'.watches ∘ h.watches⟩

/-- The connection with an id changes and the responses that wait for it are given. -/
theorem keeps_clear (x : Slave ι ν α) (id : ℕ) (v : Option ι) :
  x.Keeps ({ x with slaves := x.slaves.insert id v }.monitor_clear id)
  := ⟨rfl, rfl, rfl, fun h => h.clear rfl fun _ hne => connection_insert_of_ne x v hne⟩

/-- An id that had no connection has none. -/
theorem keeps_none (hid : (x.connection id).isSome = false) :
  x.Keeps { x with slaves := x.slaves.insert id none }
  := by
  refine ⟨rfl, rfl, rfl, fun h => h.congr rfl fun id' => ?_⟩
  rcases eq_or_ne id' id with rfl | hne
  · rw [connection_insert_self, hid]
    rfl
  · rw [connection_insert_of_ne x none hne]

theorem keeps_connected (x : Slave ι ν α) (id : ℕ) (address : ι) (fd : Bool) :
  x.Keeps (x.connected id address fd)
  := by
  cases fd with
  | false => exact .refl x
  | true => exact (keeps_clear x id _).trans ⟨rfl, rfl, rfl, fun h => h⟩

theorem keeps_opened (x : Slave ι ν α) (id : ℕ) (address : ι) (fd : Bool) :
  x.Keeps ({ x with opening := none }.connected id address fd)
  := by
  refine Keeps.trans (y := { x with opening := none }) ?_ (keeps_connected _ id address fd)
  exact ⟨rfl, rfl, rfl, fun h => h⟩

theorem keeps_ready (x : Slave ι ν α) (l : List (ℕ × ι)) :
  x.Keeps (x.ready l)
  := by
  induction l with
  | nil => exact ⟨rfl, rfl, rfl, fun h => h⟩
  | cons e l ih =>
      unfold ready
      split
      · exact ⟨rfl, rfl, rfl, fun h => h⟩
      · exact ih

theorem keeps_accept_slave (x : Slave ι ν α) (fd : ι) (byte : Option ℕ) :
  x.Keeps (x.accept_slave fd byte)
  := by
  unfold accept_slave
  split
  · exact .refl x
  · split
    · exact (keeps_clear x _ _).trans ⟨rfl, rfl, rfl, fun h => h⟩
    · exact .refl x

theorem keeps_harborDown (x : Slave ι ν α) (id : ℕ) :
  x.Keeps (x.harborDown id)
  := by
  unfold harborDown
  cases hid : (x.connection id).isSome with
  | true => exact keeps_clear x id none
  | false => exact keeps_none hid

theorem keeps_LINK (x : Slave ι ν α) (id r : ℕ) :
  x.Keeps (x.LINK id r)
  := by
  unfold LINK
  split
  · next hid => exact ⟨rfl, rfl, rfl, fun h => h.add (w := .LINK r) rfl rfl hid⟩
  · exact ⟨rfl, rfl, rfl, fun h => h⟩

theorem keeps_CONNECT (x : Slave ι ν α) (id r : ℕ) :
  x.Keeps (x.CONNECT id r)
  := by
  unfold CONNECT
  split
  · next hid =>
      rw [Option.isNone_iff_eq_none] at hid
      exact ⟨rfl, rfl, rfl, fun h => h.add (w := .CONNECT r) rfl rfl (by rw [hid]; rfl)⟩
  · exact ⟨rfl, rfl, rfl, fun h => h⟩

theorem Keeps.withPhase (h : x.Keeps y) (φ : Phase) :
  { x with phase := φ }.Keeps { y with phase := φ }
  := ⟨rfl, h.globalname, h.queryname, h.watches⟩

/-- The phase after a connection has been accepted. -/
theorem keeps_accepted (x : Slave ι ν α) (fd : ι) (byte : Option ℕ) :
  x.Keeps (x.accepted fd byte) ∨
    x.phase.listens = true ∧ { x with phase := .closing }.Keeps (x.accepted fd byte)
  := by
  have hkeeps := keeps_accept_slave x fd byte
  unfold accepted
  dsimp only
  split
  · next n hn =>
      split
      · refine .inr ⟨?_, hkeeps.withPhase .closing⟩
        rw [hn]
        rfl
      · exact .inl hkeeps
  · exact .inl hkeeps

theorem keeps_shakehandReady (x : Slave ι ν α) :
  { x with phase := .ready }.Keeps x.shakehandReady
  := by
  refine Keeps.trans ?_ (keeps_ready _ _)
  exact ⟨rfl, rfl, rfl, fun h => h⟩

variable [DecidableEq ν]

/-- What `monitor_master` does with a package that tells no name. -/
theorem keeps_monitor_master {m : Notice ι ν α} (hm : ∀ name a, m ≠ .N name a) :
  x.Keeps (x.monitor_master m)
  := by
  cases m with
  | W n => exact .refl x
  | C id address =>
      rw [monitor_master]
      split
      · exact ⟨rfl, rfl, rfl, fun h => h⟩
      · split
        · exact ⟨rfl, rfl, rfl, fun h => h⟩
        · exact .refl x
  | N name a => exact absurd rfl (hm name a)
  | D id =>
      rw [monitor_master]
      cases hid : (x.connection id).isSome with
      | true => exact keeps_clear x id none
      | false => exact keeps_none hid

theorem keeps_monitor_master_N (x : Slave ι ν α) (name : ν) (a : α) :
  { x with globalname := x.globalname.insert name a, queryname := Function.update x.queryname name [] }.Keeps
    (x.monitor_master (.N name a))
  := by
  rw [monitor_master]
  split <;> exact ⟨rfl, rfl, rfl, fun h => h⟩

end Slave

/-! ### Soundness -/

/-- The name that a package registers. -/
def Report.registers : Report ι ν α → Option ν
  | .R name _ => some name
  | _ => none

/-- What holds of a slave, given the connection to the master, what is on its way on it and the names of the
master. -/
structure Process [DecidableEq ν] (pack : Packing ν α) (c : Conn) (x : Slave ι ν α) (up : List (Report ι ν α))
    (down : List (Notice ι ν α)) (g : ν → Option α) : Prop where
  idle : x.phase = .off → c = .none
  monitored : x.phase.Live → x.phase ≠ .greeting → ∃ id, c = .monitor id
  untold : (∀ id, c ≠ .monitor id) → x.phase ≠ .down → down = []
  blank : x.phase = .off ∨ x.phase = .greeting → x.globalname = ∅ ∧ ∀ name, x.queryname name = []
  fits : ∀ name a, .R name a ∈ up → pack.fits name a
  nodup : (up.filterMap Report.registers).Nodup
  registered : ∀ name ∈ up.filterMap Report.registers, x.globalname.lookup name ≠ none
  queries : x.phase.Live → ∀ name, x.queryname name ≠ [] → x.globalname.lookup name = none ∧
    (.Q name ∈ up ∨ (∃ a, .N name a ∈ down) ∨ g name = none)
  watches : x.Watches

/-- What holds of the master. -/
structure Master (pack : Packing ν α) (s : State ι ν α) : Prop where
  ids : (s.slave_node.map Node.id).Nodup
  monitors : ∀ v ∈ s.slave_node, ∀ p, v.fd = some p → s.conn p = .monitor v.id
  nodes : ∀ p id, s.conn p = .monitor id → ∃ v ∈ s.slave_node, v.id = id ∧ v.fd = some p
  fits : ∀ name a, s.global_name name = some a → pack.fits name a

/-- The state of the network is sound. -/
def Sound [DecidableEq ν] (pack : Packing ν α) (s : State ι ν α) : Prop :=
  Master pack s ∧ ∀ p, Process pack (s.conn p) (s.slave p) (s.up p) (s.down p) s.global_name

namespace Process

variable [DecidableEq ν] {c : Conn} {x y : Slave ι ν α} {up : List (Report ι ν α)} {down : List (Notice ι ν α)}
  {g : ν → Option α}

theorem keeps (h : Process pack c x up down g) (hk : x.Keeps y) :
  Process pack c y up down g
  := by
  obtain ⟨hphase, hglobalname, hqueryname, hwatches⟩ := hk
  constructor
  · rw [hphase]
    exact h.idle
  · rw [hphase]
    exact h.monitored
  · rw [hphase]
    exact h.untold
  · rw [hphase, hglobalname, hqueryname]
    exact h.blank
  · exact h.fits
  · exact h.nodup
  · rw [hglobalname]
    exact h.registered
  · rw [hphase, hglobalname, hqueryname]
    exact h.queries
  · exact hwatches h.watches

/-- A slave that has been greeted, or dies. -/
theorem goes (h : Process pack c x up down g) (φ : Phase) (hoff : φ ≠ .off) (hgreeting : φ ≠ .greeting)
    (hlive : φ.Live → x.phase.Live ∧ ∃ id, c = .monitor id) :
  Process pack c { x with phase := φ } up down g
  := by
  constructor
  · exact fun heq => absurd heq hoff
  · exact fun hφ _ => (hlive hφ).2
  · intro hc hdown
    have hφ : φ.Live := by
      cases φ with
      | off => exact absurd rfl hoff
      | down => exact absurd rfl hdown
      | _ => trivial
    obtain ⟨id, hid⟩ := (hlive hφ).2
    exact absurd hid (hc id)
  · rintro (heq | heq)
    · exact absurd heq hoff
    · exact absurd heq hgreeting
  · exact h.fits
  · exact h.nodup
  · exact h.registered
  · exact fun hφ => h.queries (hlive hφ).1
  · exact h.watches

/-- A package is written to the slave. -/
theorem write (h : Process pack c x up down g) {k : ℕ} (hk : k = 0 ∨ ∃ id, c = .monitor id) (m : Notice ι ν α) :
  Process pack c x up (down ++ List.replicate k m) g
  := by
  obtain rfl | ⟨id, hid⟩ := hk
  · rwa [List.replicate_zero, List.append_nil]
  obtain ⟨hidle, hmonitored, huntold, hblank, hfits, hnodup, hregistered, hqueries, hwatches⟩ := h
  refine ⟨hidle, hmonitored, fun hc => absurd hid (hc id), hblank, hfits, hnodup, hregistered, ?_, hwatches⟩
  intro hlive name hname
  obtain ⟨hnone, hq⟩ := hqueries hlive name hname
  refine ⟨hnone, hq.imp_right (Or.imp_left ?_)⟩
  rintro ⟨a, ha⟩
  exact ⟨a, List.mem_append_left _ ha⟩

/-- The master learns a name, and every slave that it monitors is told. -/
theorem learn (h : Process pack c x up down g) {k : ℕ} (hk : (∃ id, c = .monitor id) ↔ 0 < k) (name : ν)
    (a : α) (b : Option α) :
  Process pack c x up (down ++ List.replicate k (.N name a)) (Function.update g name b)
  := by
  have hw : Process pack c x up (down ++ List.replicate k (.N name a)) g :=
    h.write (k.eq_zero_or_pos.imp_right hk.mpr) _
  obtain ⟨hidle, hmonitored, huntold, hblank, hfits, hnodup, hregistered, hqueries, hwatches⟩ := hw
  refine ⟨hidle, hmonitored, huntold, hblank, hfits, hnodup, hregistered, ?_, hwatches⟩
  intro hlive name' hname
  obtain ⟨hnone, hq⟩ := hqueries hlive name' hname
  refine ⟨hnone, ?_⟩
  rcases eq_or_ne name' name with rfl | hne
  · have hgreeted : x.phase ≠ .greeting := fun heq => hname ((hblank (.inr heq)).2 name')
    have hpos : k ≠ 0 := Nat.ne_of_gt (hk.mp (hmonitored hlive hgreeted))
    exact .inr (.inl ⟨a, List.mem_append_right _ (List.mem_replicate.mpr ⟨hpos, rfl⟩)⟩)
  · rwa [Function.update_of_ne hne]

/-- The master reads a package: what waits for it waits for the answer, or for the name to be registered. -/
theorem receive {m : Report ι ν α} (h : Process pack c x (m :: up) down g)
    (hm : ∀ name, m = .Q name → (∃ a, .N name a ∈ down) ∨ g name = none) :
  Process pack c x up down g
  := by
  obtain ⟨hidle, hmonitored, huntold, hblank, hfits, hnodup, hregistered, hqueries, hwatches⟩ := h
  refine ⟨hidle, hmonitored, huntold, hblank, fun name a hmem => hfits name a (List.mem_cons_of_mem m hmem), ?_, ?_,
    ?_, hwatches⟩
  · rw [List.filterMap_cons] at hnodup
    split at hnodup
    · exact hnodup
    · exact (List.nodup_cons.mp hnodup).2
  · intro name hname
    apply hregistered
    rw [List.filterMap_cons]
    split
    · exact hname
    · exact List.mem_cons_of_mem _ hname
  · intro hlive name hname
    obtain ⟨hnone, hq | hq⟩ := hqueries hlive name hname
    · rcases List.mem_cons.mp hq with hq | hq
      · exact ⟨hnone, .inr (hm name hq.symm)⟩
      · exact ⟨hnone, .inl hq⟩
    · exact ⟨hnone, .inr hq⟩

/-- The connection is closed, with what has not been read of it. -/
theorem close (h : Process pack c x up down g) (hphase : x.phase = .down ∨ x.phase = .greeting ∧ down = [])
    {up' : List (Report ι ν α)} (hup : up'.Sublist up) :
  Process pack .closed x up' down g
  := by
  obtain ⟨hidle, hmonitored, huntold, hblank, hfits, hnodup, hregistered, hqueries, hwatches⟩ := h
  have hsub := hup.filterMap Report.registers
  constructor
  · intro hoff
    rcases hphase with heq | ⟨heq, -⟩ <;> rw [heq] at hoff <;> cases hoff
  · intro hlive hne
    rcases hphase with heq | ⟨heq, -⟩
    · rw [heq] at hlive
      exact absurd hlive id
    · exact absurd heq hne
  · intro _ hne
    rcases hphase with heq | ⟨-, hdown⟩
    · exact absurd heq hne
    · exact hdown
  · exact hblank
  · exact fun name a hmem => hfits name a (hup.subset hmem)
  · exact hnodup.sublist hsub
  · exact fun name hname => hregistered name (hsub.subset hname)
  · intro hlive name hname
    rcases hphase with heq | ⟨heq, -⟩
    · rw [heq] at hlive
      exact absurd hlive id
    · exact absurd ((hblank (.inr heq)).2 name) hname
  · exact hwatches

/-- The slave is monitored from now on. -/
theorem monitor (h : Process pack c x up down g) (hphase : x.phase ≠ .off) (id : ℕ) :
  Process pack (.monitor id) x up down g
  := ⟨fun hoff => absurd hoff hphase, fun _ _ => ⟨id, rfl⟩, fun hc => absurd rfl (hc id), h.blank, h.fits, h.nodup,
    h.registered, h.queries, h.watches⟩

/-- A slave whose handshake has not been read has not been greeted. -/
theorem phase_of_handshake (h : Process pack .handshake x up down g) :
  x.phase = .down ∨ x.phase = .greeting ∧ down = []
  := by
  have hc (id : ℕ) : Conn.handshake ≠ .monitor id := Conn.noConfusion
  cases hphase : x.phase with
  | off => cases h.idle hphase
  | down => exact .inl rfl
  | greeting => exact .inr ⟨rfl, h.untold hc fun hdown => by cases hphase.symm.trans hdown⟩
  | _ =>
      obtain ⟨id, hid⟩ := h.monitored (by rw [hphase]; trivial) (by rw [hphase]; exact Phase.noConfusion)
      exact absurd hid (hc id)

/-- The slave asks the master for a name. -/
theorem send_Q (h : Process pack c x up down g) (name : ν) :
  Process pack c x (up ++ [.Q name]) down g
  := by
  obtain ⟨hidle, hmonitored, huntold, hblank, hfits, hnodup, hregistered, hqueries, hwatches⟩ := h
  have hsame : (up ++ [Report.Q name]).filterMap Report.registers = up.filterMap Report.registers := by
    rw [List.filterMap_append]
    exact List.append_nil _
  refine ⟨hidle, hmonitored, huntold, hblank, ?_, ?_, ?_, ?_, hwatches⟩
  · intro name' a hmem
    rcases List.mem_append.mp hmem with hmem | hmem
    · exact hfits name' a hmem
    · cases List.mem_singleton.mp hmem
  · rwa [hsame]
  · rwa [hsame]
  · intro hlive name' hname
    obtain ⟨hnone, hq⟩ := hqueries hlive name' hname
    exact ⟨hnone, hq.imp_left (List.mem_append_left _)⟩

/-- The slave registers a name. -/
theorem register (h : Process pack c x up down g) {name : ν} (hready : x.phase = .ready)
    (hnone : x.globalname.lookup name = none) (a : α) :
  Process pack c ({ x with globalname := x.globalname.insert name a }.response_name name) up down g
  := by
  obtain ⟨hidle, hmonitored, huntold, hblank, hfits, hnodup, hregistered, hqueries, hwatches⟩ := h
  refine ⟨hidle, hmonitored, huntold, ?_, hfits, hnodup, ?_, ?_, hwatches⟩
  · rintro (heq | heq) <;> cases hready.symm.trans heq
  · intro name' hname
    have hne : name' ≠ name := fun heq => hregistered name' hname (heq ▸ hnone)
    change (x.globalname.insert name a).lookup name' ≠ none
    rw [AList.lookup_insert_ne hne]
    exact hregistered name' hname
  · intro hlive name' hname
    have hne : name' ≠ name := by
      rintro rfl
      exact hname (Function.update_self _ _ _)
    change Function.update x.queryname name [] name' ≠ [] at hname
    change (x.globalname.insert name a).lookup name' = none ∧ _
    rw [Function.update_of_ne hne] at hname
    rw [AList.lookup_insert_ne hne]
    exact hqueries hlive name' hname

/-- The slave sends a name that it has registered. -/
theorem send_R (h : Process pack c x up down g) {name : ν} {a : α} (hfit : pack.fits name a)
    (hsome : x.globalname.lookup name ≠ none) (hnot : name ∉ up.filterMap Report.registers) :
  Process pack c x (up ++ [.R name a]) down g
  := by
  obtain ⟨hidle, hmonitored, huntold, hblank, hfits, hnodup, hregistered, hqueries, hwatches⟩ := h
  have happend : (up ++ [Report.R name a]).filterMap Report.registers = up.filterMap Report.registers ++ [name] := by
    rw [List.filterMap_append]
    rfl
  refine ⟨hidle, hmonitored, huntold, hblank, ?_, ?_, ?_, ?_, hwatches⟩
  · intro name' a' hmem
    rcases List.mem_append.mp hmem with hmem | hmem
    · exact hfits name' a' hmem
    · cases List.mem_singleton.mp hmem
      exact hfit
  · rw [happend, ← List.concat_eq_append]
    exact hnodup.concat hnot
  · intro name' hname
    rw [happend] at hname
    rcases List.mem_append.mp hname with hname | hname
    · exact hregistered name' hname
    · rwa [List.mem_singleton.mp hname]
  · intro hlive name' hname
    obtain ⟨hnone, hq⟩ := hqueries hlive name' hname
    exact ⟨hnone, hq.imp_left (List.mem_append_left _)⟩

/-- A query waits. -/
theorem query (h : Process pack c x up down g) {name : ν} (hnone : x.globalname.lookup name = none)
    (hready : x.phase = .ready) (hwait : .Q name ∈ up ∨ (∃ a, .N name a ∈ down) ∨ g name = none) (l : List ℕ) :
  Process pack c { x with queryname := Function.update x.queryname name l } up down g
  := by
  obtain ⟨hidle, hmonitored, huntold, hblank, hfits, hnodup, hregistered, hqueries, hwatches⟩ := h
  refine ⟨hidle, hmonitored, huntold, ?_, hfits, hnodup, hregistered, ?_, hwatches⟩
  · rw [hready]
    rintro (heq | heq) <;> cases heq
  · intro hlive name' hname
    rcases eq_or_ne name' name with rfl | hne
    · exact ⟨hnone, hwait⟩
    · dsimp only at hname
      rw [Function.update_of_ne hne] at hname
      exact hqueries hlive name' hname

/-- A package is taken that no query waits for. -/
theorem take {m : Notice ι ν α} (h : Process pack c x up (m :: down) g)
    (hm : ∀ name a, m = .N name a → x.queryname name = []) :
  Process pack c x up down g
  := by
  obtain ⟨hidle, hmonitored, huntold, hblank, hfits, hnodup, hregistered, hqueries, hwatches⟩ := h
  refine ⟨hidle, hmonitored, ?_, hblank, hfits, hnodup, hregistered, ?_, hwatches⟩
  · exact fun hc hphase => absurd (huntold hc hphase) (List.cons_ne_nil _ _)
  · intro hlive name hname
    obtain ⟨hnone, hq | ⟨a, ha⟩ | hq⟩ := hqueries hlive name hname
    · exact ⟨hnone, .inl hq⟩
    · rcases List.mem_cons.mp ha with heq | ha
      · exact absurd (hm name a heq.symm) hname
      · exact ⟨hnone, .inr (.inl ⟨a, ha⟩)⟩
    · exact ⟨hnone, .inr (.inr hq)⟩

/-- The slave is told a name. -/
theorem told {name : ν} {a : α} (h : Process pack c x up (.N name a :: down) g) (hlive : x.phase.Live)
    (hphase : x.phase ≠ .greeting) :
  Process pack c
    { x with globalname := x.globalname.insert name a, queryname := Function.update x.queryname name [] } up down g
  := by
  obtain ⟨hidle, hmonitored, huntold, hblank, hfits, hnodup, hregistered, hqueries, hwatches⟩ := h
  refine ⟨hidle, hmonitored, ?_, ?_, hfits, hnodup, ?_, ?_, hwatches⟩
  · exact fun hc hdown => absurd (huntold hc hdown) (List.cons_ne_nil _ _)
  · rintro (heq | heq)
    · rw [show x.phase = .off from heq] at hlive
      exact absurd hlive id
    · exact absurd heq hphase
  · intro name' hname
    rcases eq_or_ne name' name with rfl | hne
    · rw [AList.lookup_insert]
      exact Option.some_ne_none a
    · rw [AList.lookup_insert_ne hne]
      exact hregistered name' hname
  · intro _ name' hname
    have hne : name' ≠ name := by
      rintro rfl
      exact hname (Function.update_self _ _ _)
    dsimp only at hname
    rw [Function.update_of_ne hne] at hname
    rw [AList.lookup_insert_ne hne]
    obtain ⟨hnone, hq | ⟨b, hb⟩ | hq⟩ := hqueries hlive name' hname
    · exact ⟨hnone, .inl hq⟩
    · rcases List.mem_cons.mp hb with heq | hb
      · cases heq
        exact absurd rfl hne
      · exact ⟨hnone, .inr (.inl ⟨b, hb⟩)⟩
    · exact ⟨hnone, .inr (.inr hq)⟩

/-- A slave that the master has written to is monitored by it. -/
theorem monitored_of_cons {m : Notice ι ν α} (h : Process pack c x up (m :: down) g) (hlive : x.phase.Live) :
  ∃ id, c = .monitor id
  := by
  by_contra hnone
  have hdown : x.phase ≠ .down := by
    intro heq
    rw [heq] at hlive
    exact hlive
  exact List.cons_ne_nil m down (h.untold (fun id hid => hnone ⟨id, hid⟩) hdown)

/-- The slave reads a package. -/
theorem notice {m : Notice ι ν α} (h : Process pack c x up (m :: down) g) (hlive : x.phase.Live) :
  Process pack c (x.notice m) up down g
  := by
  have hc := h.monitored_of_cons hlive
  unfold Slave.notice
  split
  · next hgreeting =>
      have htaken := h.take fun name _ _ => (h.blank (.inr hgreeting)).2 name
      cases m with
      | W n =>
          rw [Slave.greeted]
          split
          · exact htaken.goes _ Phase.noConfusion Phase.noConfusion fun _ => ⟨hlive, hc⟩
          · exact htaken.goes _ Phase.noConfusion Phase.noConfusion fun _ => ⟨hlive, hc⟩
      | _ => exact htaken.goes _ Phase.noConfusion Phase.noConfusion fun hdown => absurd hdown id
  · next hgreeting =>
      cases m with
      | N name a => exact (h.told hlive hgreeting).keeps (Slave.keeps_monitor_master_N x name a)
      | _ =>
          refine (h.take fun name a heq => ?_).keeps (Slave.keeps_monitor_master fun name a heq => ?_)
          · cases heq
          · cases heq

end Process

namespace Master

variable {s : State ι ν α}

theorem mem_fds (h : Master pack s) {p : ι} :
  p ∈ s.fds ↔ ∃ id, s.conn p = .monitor id
  := by
  unfold State.fds
  rw [List.mem_filterMap]
  constructor
  · rintro ⟨v, hv, hp⟩
    exact ⟨v.id, h.monitors v hv p hp⟩
  · rintro ⟨id, hid⟩
    obtain ⟨v, hv, -, hp⟩ := h.nodes p id hid
    exact ⟨v, hv, hp⟩

theorem nodup_fds (h : Master pack s) :
  s.fds.Nodup
  := by
  unfold State.fds
  rw [List.Nodup, List.pairwise_filterMap]
  refine (List.pairwise_map.mp h.ids).imp_of_mem fun {v w} hv hw hne p hp q hq heq => ?_
  subst heq
  have hid := (h.monitors v hv p hp).symm.trans (h.monitors w hw p hq)
  exact hne (Conn.monitor.inj hid)

/-- Only the slaves that are monitored are written to. -/
theorem written [DecidableEq ι] (h : Master pack s) (q : ι) :
  s.fds.count q = 0 ∨ ∃ id, s.conn q = .monitor id
  := by
  rw [← h.mem_fds, ← List.count_pos_iff]
  exact Nat.eq_zero_or_pos _

/-- A node is known by its id. -/
theorem node_unique (h : Master pack s) {v w : Node ι} (hv : v ∈ s.slave_node) (hw : w ∈ s.slave_node)
    (hid : v.id = w.id) :
  v = w
  := List.inj_on_of_nodup_map h.ids hv hw hid

/-- Only connections that are not monitored change. -/
theorem congr {t : State ι ν α} (h : Master pack s) (hnodes : t.slave_node = s.slave_node)
    (hglobal : t.global_name = s.global_name) (hconn : ∀ q id, t.conn q = .monitor id ↔ s.conn q = .monitor id) :
  Master pack t
  := by
  constructor
  · rw [hnodes]
    exact h.ids
  · intro v hv q hq
    rw [hnodes] at hv
    exact (hconn q v.id).mpr (h.monitors v hv q hq)
  · intro q id hid
    rw [hnodes]
    exact h.nodes q id ((hconn q id).mp hid)
  · rw [hglobal]
    exact h.fits

variable [DecidableEq ι] {p : ι} {t : State ι ν α}

/-- A slave is monitored. -/
theorem add (h : Master pack s) {slave_id : ℕ} (hp : ∀ id, s.conn p ≠ .monitor id)
    (hid : s.slave_node.any (·.id = slave_id) = false) (addr : ι)
    (hnodes : t.slave_node = s.slave_node ++ [⟨slave_id, some p, addr⟩])
    (hconn : t.conn = Function.update s.conn p (.monitor slave_id)) (hglobal : t.global_name = s.global_name) :
  Master pack t
  := by
  have hnew : ∀ v ∈ s.slave_node, v.id ≠ slave_id := by
    intro v hv heq
    rw [List.any_eq_false] at hid
    exact hid v hv (decide_eq_true heq)
  constructor
  · rw [hnodes, List.map_append, List.map_singleton, ← List.concat_eq_append]
    refine h.ids.concat fun hmem => ?_
    obtain ⟨v, hv, heq⟩ := List.mem_map.mp hmem
    exact hnew v hv heq
  · intro v hv q hq
    rw [hnodes] at hv
    rw [hconn]
    rcases List.mem_append.mp hv with hold | hnew
    · have hq' := h.monitors v hold q hq
      have hne : q ≠ p := by
        rintro rfl
        exact hp v.id hq'
      rwa [Function.update_of_ne hne]
    · rw [List.mem_singleton.mp hnew] at hq ⊢
      obtain rfl := Option.some.inj hq
      rw [Function.update_self]
  · intro q id hqid
    rw [hnodes]
    rw [hconn] at hqid
    rcases eq_or_ne q p with rfl | hne
    · rw [Function.update_self] at hqid
      obtain rfl := Conn.monitor.inj hqid
      exact ⟨_, List.mem_append_right _ (List.mem_singleton_self _), rfl, rfl⟩
    · rw [Function.update_of_ne hne] at hqid
      obtain ⟨v, hv, hvid, hvq⟩ := h.nodes q id hqid
      exact ⟨v, List.mem_append_left _ hv, hvid, hvq⟩
  · rw [hglobal]
    exact h.fits

/-- A slave is monitored no more. -/
theorem remove (h : Master pack s) {slave_id : ℕ} (hp : s.conn p = .monitor slave_id)
    (hnodes : t.slave_node = s.slave_node.map fun v : Node ι => if v.id = slave_id then { v with fd := none } else v)
    (hconn : t.conn = Function.update s.conn p .closed) (hglobal : t.global_name = s.global_name) :
  Master pack t
  := by
  constructor
  · have hsame : t.slave_node.map Node.id = s.slave_node.map Node.id := by
      rw [hnodes, List.map_map]
      refine List.map_congr_left fun v _ => ?_
      rw [Function.comp_apply]
      split <;> rfl
    rw [hsame]
    exact h.ids
  · intro v hv q hq
    rw [hnodes] at hv
    rw [hconn]
    obtain ⟨w, hw, rfl⟩ := List.mem_map.mp hv
    split at hq
    · cases hq
    · next hne =>
        have hqp : q ≠ p := by
          rintro rfl
          exact hne (Conn.monitor.inj ((h.monitors w hw q hq).symm.trans hp))
        rw [if_neg hne, Function.update_of_ne hqp]
        exact h.monitors w hw q hq
  · intro q id hqid
    rw [hnodes]
    rw [hconn] at hqid
    rcases eq_or_ne q p with rfl | hne
    · rw [Function.update_self] at hqid
      cases hqid
    · rw [Function.update_of_ne hne] at hqid
      obtain ⟨v, hv, hvid, hvq⟩ := h.nodes q id hqid
      obtain ⟨w, hw, hwid, hwp⟩ := h.nodes p slave_id hp
      have hother : v.id ≠ slave_id := by
        intro heq
        rw [h.node_unique hv hw (heq.trans hwid.symm), hwp] at hvq
        exact hne (Option.some.inj hvq).symm
      exact ⟨v, List.mem_map.mpr ⟨v, hv, if_neg hother⟩, hvid, hvq⟩
  · rw [hglobal]
    exact h.fits

end Master

/-! ### The steps -/

section Steps

variable [DecidableEq ι] [DecidableEq ν] {s t : State ι ν α} {p : ι}

omit [DecidableEq ι] in
/-- A step of one slave and its connection. -/
theorem Sound.local (h : Sound pack s) (hnodes : t.slave_node = s.slave_node) (hglobal : t.global_name = s.global_name)
    (hconn : ∀ id, t.conn p = .monitor id ↔ s.conn p = .monitor id)
    (hother : ∀ q, q ≠ p → t.conn q = s.conn q ∧ t.slave q = s.slave q ∧ t.up q = s.up q ∧ t.down q = s.down q)
    (hp : Process pack (t.conn p) (t.slave p) (t.up p) (t.down p) s.global_name) :
  Sound pack t
  := by
  obtain ⟨hmaster, hprocess⟩ := h
  constructor
  · refine hmaster.congr hnodes hglobal fun q id => ?_
    rcases eq_or_ne q p with rfl | hne
    · exact hconn id
    · rw [(hother q hne).1]
  · intro q
    rw [hglobal]
    rcases eq_or_ne q p with rfl | hne
    · exact hp
    · obtain ⟨h₁, h₂, h₃, h₄⟩ := hother q hne
      rw [h₁, h₂, h₃, h₄]
      exact hprocess q

/-- A slave goes over to another state. -/
theorem Sound.setSlave (h : Sound pack s) {x : Slave ι ν α}
    (hx : Process pack (s.conn p) x (s.up p) (s.down p) s.global_name) :
  Sound pack (s.setSlave p x)
  := by
  refine h.local (p := p) rfl rfl (fun _ => Iff.rfl) (fun q hne => ⟨rfl, Function.update_of_ne hne _ _, rfl, rfl⟩) ?_
  rw [show (s.setSlave p x).slave p = x from Function.update_self _ _ _]
  exact hx

theorem Sound.keeps (h : Sound pack s) {x : Slave ι ν α} (hk : (s.slave p).Keeps x) :
  Sound pack (s.setSlave p x)
  := h.setSlave ((h.2 p).keeps hk)

omit [DecidableEq ι] in
/-- The connections that have not been accepted are no part of it. -/
theorem Sound.incoming (h : Sound pack s) (incoming : ι → List ι) :
  Sound pack { s with incoming := incoming }
  := ⟨h.1.congr rfl rfl fun _ _ => Iff.rfl, h.2⟩

theorem Sound.openTo (h : Sound pack s) (q : ι) :
  Sound pack (s.openTo p q)
  := by
  unfold State.openTo
  split
  · exact h.incoming _
  · exact h

theorem Sound.join (h : Sound pack s) (hoff : (s.slave p).phase = .off) :
  Sound pack { s with
    conn := Function.update s.conn p .handshake
    slave := Function.update s.slave p { s.slave p with phase := .greeting }
    up := Function.update s.up p [.H (harbor p) p] }
  := by
  have hp := h.2 p
  have hconn := hp.idle hoff
  have hdown := hp.untold (fun id hid => Conn.noConfusion (hconn.symm.trans hid)) fun hdown =>
    Phase.noConfusion (hoff.symm.trans hdown)
  refine h.local (p := p) rfl rfl (fun id => ?_) (fun q hne => ?_) ?_
  · dsimp only
    rw [Function.update_self, hconn]
    exact ⟨Conn.noConfusion, Conn.noConfusion⟩
  · exact ⟨Function.update_of_ne hne _ _, Function.update_of_ne hne _ _, Function.update_of_ne hne _ _, rfl⟩
  dsimp only
  rw [Function.update_self, Function.update_self, Function.update_self]
  constructor
  · exact Phase.noConfusion
  · exact fun _ hne => absurd rfl hne
  · exact fun _ _ => hdown
  · exact fun _ => hp.blank (.inl hoff)
  · intro name a hmem
    cases List.mem_singleton.mp hmem
  · exact List.nodup_nil
  · intro name hname
    exact absurd hname List.not_mem_nil
  · intro _ name hname
    exact absurd ((hp.blank (.inl hoff)).2 name) hname
  · exact hp.watches

/-- The master reads the handshake. -/
theorem Sound.handshake {m : Report ι ν α} {rest : List (Report ι ν α)} (h : Sound pack s)
    (hconn : s.conn p = .handshake) (hup : s.up p = m :: rest) :
  Sound pack ({ s with up := Function.update s.up p rest }.handshake p m)
  := by
  have hp := h.2 p
  rw [hconn, hup] at hp
  have hphase := hp.phase_of_handshake
  have hrefused : Sound pack
      { s with up := Function.update s.up p rest, conn := Function.update s.conn p .closed } := by
    refine h.local (p := p) rfl rfl (fun id => ?_) (fun q hne => ?_) ?_
    · dsimp only
      rw [Function.update_self, hconn]
      exact ⟨Conn.noConfusion, Conn.noConfusion⟩
    · exact ⟨Function.update_of_ne hne _ _, rfl, Function.update_of_ne hne _ _, rfl⟩
    · dsimp only
      rw [Function.update_self, Function.update_self]
      exact hp.close hphase (List.sublist_cons_self m rest)
  cases m with
  | R name a => exact hrefused
  | Q name => exact hrefused
  | H slave_id slave_addr =>
      rw [State.handshake]
      split
      · exact hrefused
      · next hid =>
          rw [not_or, Bool.not_eq_true] at hid
          have hmonitor (id : ℕ) : s.conn p ≠ .monitor id := by
            rw [hconn]
            exact Conn.noConfusion
          have hnot : p ∉ s.fds := fun hmem => (h.1.mem_fds.mp hmem).elim hmonitor
          refine ⟨h.1.add hmonitor hid.2 slave_addr rfl rfl rfl, fun q => ?_⟩
          dsimp only
          rw [State.write_down, State.write_down]
          rcases eq_or_ne q p with rfl | hne
          · rw [Function.update_self, List.count_singleton_self]
            change Process pack _ (s.slave q) (Function.update s.up q rest q)
              (s.down q ++ List.replicate (s.fds.count q) _ ++ _) s.global_name
            rw [Function.update_self, List.count_eq_zero_of_not_mem hnot, List.replicate_zero, List.append_nil]
            have hoff : (s.slave q).phase ≠ .off := by
              rcases hphase with heq | ⟨heq, -⟩ <;> rw [heq] <;> exact Phase.noConfusion
            have hread := hp.receive (by rintro name ⟨⟩)
            exact (hread.monitor hoff slave_id).write (.inr ⟨slave_id, rfl⟩) _
          · rw [Function.update_of_ne hne, List.count_eq_zero_of_not_mem (mt List.mem_singleton.mp hne),
              List.replicate_zero, List.append_nil]
            change Process pack _ (s.slave q) (Function.update s.up p rest q)
              (s.down q ++ List.replicate (s.fds.count q) _) s.global_name
            rw [Function.update_of_ne hne]
            exact (h.2 q).write (h.1.written q) _

/-- The end of `monitor_slave`, when the slave is down. -/
theorem Sound.slaveDown {slave_id : ℕ} {up : List (Report ι ν α)} (h : Sound pack s)
    (hconn : s.conn p = .monitor slave_id) (hphase : (s.slave p).phase = .down) (hup : up.Sublist (s.up p)) :
  Sound pack ({ s with up := Function.update s.up p up }.slaveDown p slave_id)
  := by
  unfold State.slaveDown
  dsimp only
  have hmaster := h.1.remove (p := p) (t := { s with
    slave_node := s.slave_node.map fun v : Node ι => if v.id = slave_id then { v with fd := none } else v
    conn := Function.update s.conn p .closed }) hconn rfl rfl rfl
  refine ⟨hmaster.congr rfl rfl fun _ _ => Iff.rfl, fun q => ?_⟩
  rw [State.write_down]
  change Process pack (Function.update s.conn p .closed q) (s.slave q) (Function.update s.up p up q)
    (s.down q ++ List.replicate _ _) s.global_name
  refine Process.write ?_ (hmaster.written q) _
  dsimp only
  rcases eq_or_ne q p with rfl | hne
  · rw [Function.update_self, Function.update_self]
    exact (h.2 q).close (.inl hphase) hup
  · rw [Function.update_of_ne hne, Function.update_of_ne hne]
    exact h.2 q

/-- The master reads a package of a slave that it monitors. -/
theorem Sound.dispatch_slave {m : Report ι ν α} {rest : List (Report ι ν α)} {slave_id : ℕ} (h : Sound pack s)
    (hconn : s.conn p = .monitor slave_id) (hup : s.up p = m :: rest) :
  Sound pack ({ s with up := Function.update s.up p rest }.dispatch_slave pack p slave_id m)
  := by
  have hp := h.2 p
  rw [hup] at hp
  have hread {g : ν → Option α} {down : List (Notice ι ν α)} (q : ι)
      (hq : Process pack (s.conn q) (s.slave q) (s.up q) down g)
      (hm : ∀ name, m = .Q name → (∃ a, .N name a ∈ down) ∨ g name = none) :
      Process pack (s.conn q) (s.slave q) (Function.update s.up p rest q) down g := by
    rcases eq_or_ne q p with rfl | hne
    · rw [hup] at hq
      rw [Function.update_self]
      exact hq.receive hm
    · rwa [Function.update_of_ne hne]
  cases m with
  | H slave_id slave_addr => exact ⟨h.1.congr rfl rfl fun _ _ => Iff.rfl, fun q => hread q (h.2 q) (by rintro name ⟨⟩)⟩
  | R name a =>
      have hfits : pack.fits name a := hp.fits name a List.mem_cons_self
      rw [State.dispatch_slave]
      dsimp only
      rw [if_pos hfits]
      constructor
      · refine ⟨h.1.ids, h.1.monitors, h.1.nodes, fun name' a' hname => ?_⟩
        change Function.update s.global_name name _ name' = some a' at hname
        rcases eq_or_ne name' name with rfl | hne
        · rw [Function.update_self] at hname
          obtain rfl := Option.some.inj hname
          cases hold : s.global_name name' with
          | none => exact hfits
          | some b => exact h.1.fits name' b hold
        · rw [Function.update_of_ne hne] at hname
          exact h.1.fits name' a' hname
      · intro q
        rw [State.write_down]
        refine hread q ((h.2 q).learn ?_ name a _) (by rintro name ⟨⟩)
        rw [← h.1.mem_fds]
        exact List.count_pos_iff.symm
  | Q name =>
      rw [State.dispatch_slave]
      split
      · next hnone =>
          refine ⟨h.1.congr rfl rfl fun _ _ => Iff.rfl, fun q => hread q (h.2 q) ?_⟩
          rintro name ⟨⟩
          exact .inr hnone
      · next a hsome =>
          rw [if_pos (h.1.fits name a hsome)]
          refine ⟨h.1.congr rfl rfl fun _ _ => Iff.rfl, fun q => ?_⟩
          rw [State.write_down]
          rcases eq_or_ne q p with rfl | hne
          · refine hread q ((h.2 q).write (.inr ⟨slave_id, hconn⟩) _) ?_
            rintro name ⟨⟩
            refine .inl ⟨a, List.mem_append_right _ (List.mem_replicate.mpr ⟨?_, rfl⟩)⟩
            rw [List.count_singleton_self]
            exact Nat.one_ne_zero
          · rw [List.count_eq_zero_of_not_mem (mt List.mem_singleton.mp hne), List.replicate_zero, List.append_nil]
            change Process pack (s.conn q) (s.slave q) (Function.update s.up p rest q) (s.down q) s.global_name
            rw [Function.update_of_ne hne]
            exact h.2 q

/-- The master loses a connection whose handshake it has not read. -/
theorem Sound.loseHandshake (h : Sound pack s) (hphase : (s.slave p).phase = .down) (hconn : s.conn p = .handshake) :
  Sound pack { s with up := Function.update s.up p [], conn := Function.update s.conn p .closed }
  := by
  refine h.local (p := p) rfl rfl (fun id => ?_) (fun q hne => ?_) ?_
  · dsimp only
    rw [Function.update_self, hconn]
    exact ⟨Conn.noConfusion, Conn.noConfusion⟩
  · exact ⟨Function.update_of_ne hne _ _, rfl, Function.update_of_ne hne _ _, rfl⟩
  · dsimp only
    rw [Function.update_self, Function.update_self]
    exact (h.2 p).close (.inl hphase) (List.nil_sublist _)

/-- A slave reads a package. -/
theorem Sound.notice {m : Notice ι ν α} {rest : List (Notice ι ν α)} (h : Sound pack s) (hdown : s.down p = m :: rest)
    (hlive : (s.slave p).phase.Live) :
  Sound pack ({ s with down := Function.update s.down p rest }.setSlave p ((s.slave p).notice m))
  := by
  have hp := h.2 p
  rw [hdown] at hp
  refine h.local (p := p) rfl rfl (fun _ => Iff.rfl) (fun q hne => ?_) ?_
  · exact ⟨rfl, Function.update_of_ne hne _ _, rfl, Function.update_of_ne hne _ _⟩
  · change Process pack (s.conn p) (Function.update s.slave p _ p) (s.up p) (Function.update s.down p rest p) _
    rw [Function.update_self, Function.update_self]
    exact hp.notice hlive

/-- A slave has tried to connect to another. -/
theorem Sound.opened {q : ι} {x : Slave ι ν α} (h : Sound pack s) (hk : (s.slave p).Keeps x) :
  Sound pack ((s.openTo p q).setSlave p x)
  := by
  apply (h.openTo q).keeps
  unfold State.openTo
  split <;> exact hk

/-- A slave sends a package as it goes over to another state. -/
theorem Sound.send {x : Slave ι ν α} {m : Report ι ν α} (h : Sound pack s)
    (hx : Process pack (s.conn p) x (s.up p ++ [m]) (s.down p) s.global_name) :
  Sound pack ((s.setSlave p x).send p m)
  := by
  refine h.local (p := p) rfl rfl (fun _ => Iff.rfl) (fun q hne => ?_) ?_
  · exact ⟨rfl, Function.update_of_ne hne _ _, Function.update_of_ne hne _ _, rfl⟩
  · rw [show ((s.setSlave p x).send p m).slave p = x from Function.update_self _ _ _,
      show ((s.setSlave p x).send p m).up p = s.up p ++ [m] from Function.update_self _ _ _]
    exact hx

theorem Sound.REGISTER {name : ν} {handle : α} (h : Sound pack s) (hready : (s.slave p).phase = .ready)
    (hnone : (s.slave p).globalname.lookup name = none) :
  Sound pack (s.REGISTER pack p name handle)
  := by
  have hresponse := (h.2 p).register hready hnone handle
  unfold State.REGISTER
  dsimp only
  split
  · next hfits =>
      apply h.send
      refine (hresponse.send_R hfits ?_ ?_).keeps ⟨rfl, rfl, rfl, fun hwatches => hwatches⟩
      · change ((s.slave p).globalname.insert name handle).lookup name ≠ none
        rw [AList.lookup_insert]
        exact Option.some_ne_none handle
      · exact fun hmem => (h.2 p).registered name hmem hnone
  · exact h.setSlave hresponse

theorem Sound.QUERYNAME {name : ν} {r : ℕ} (h : Sound pack s) (hready : (s.slave p).phase = .ready) :
  Sound pack (s.QUERYNAME pack p name r)
  := by
  have hp := h.2 p
  unfold State.QUERYNAME
  split
  · exact h.keeps ⟨rfl, rfl, rfl, fun hwatches => hwatches⟩
  · next hnone =>
      dsimp only
      split
      · split
        · apply h.send
          refine Process.query (hp.send_Q name) hnone hready (.inl ?_) _
          exact List.mem_append_right _ (List.mem_singleton_self _)
        · exact h
      · next hwait =>
          apply h.setSlave
          refine hp.query hnone hready ?_ _
          refine (hp.queries ?_ name hwait).2
          rw [hready]
          trivial

theorem Sound.ask {name : ν} (h : Sound pack s) :
  Sound pack (s.ask pack p name)
  := by
  unfold State.ask
  split
  · exact h.keeps ⟨rfl, rfl, rfl, fun hwatches => hwatches⟩
  · split
    · refine h.local (p := p) rfl rfl (fun _ => Iff.rfl) (fun q hne => ?_) ?_
      · exact ⟨rfl, rfl, Function.update_of_ne hne _ _, rfl⟩
      · rw [show (s.send p (.Q name)).up p = s.up p ++ [.Q name] from Function.update_self _ _ _]
        exact (h.2 p).send_Q name
    · exact h

theorem Sound.step {l : Step ι ν α} (h : Sound pack s) (hstep : step pack harbor s l = some t) :
  Sound pack t
  := by
  cases moves_of_step pack harbor hstep with
  | join hoff => exact h.join hoff
  | handshake hconn hup => exact h.handshake hconn hup
  | dispatch hconn hup => exact h.dispatch_slave hconn hup
  | loseHandshake hdown hconn => exact h.loseHandshake hdown hconn
  | lose hdown hconn => exact h.slaveDown hconn hdown (List.nil_sublist _)
  | notice hdown hlive => exact h.notice hdown hlive
  | @refused p => exact h.setSlave ((h.2 p).goes .down Phase.noConfusion Phase.noConfusion fun hlive => absurd hlive id)
  | opened => exact h.opened (Slave.keeps_opened _ _ _ _)
  | linked => exact h.opened ((Slave.keeps_connected _ _ _ _).trans (Slave.keeps_ready _ _))
  | @accept p q _ _ hlive hgreeted =>
      obtain hk | ⟨hlistens, hk⟩ := Slave.keeps_accepted (s.slave p) q _
      · exact (h.incoming _).keeps hk
      · have hp := (h.2 p).goes .closing Phase.noConfusion Phase.noConfusion
          fun _ => ⟨hlive, (h.2 p).monitored hlive hgreeted⟩
        exact (h.incoming _).setSlave (hp.keeps hk)
  | @shakehand p hclosing =>
      have hlive : (s.slave p).phase.Live := by
        rw [hclosing]
        trivial
      have hgreeted : (s.slave p).phase ≠ .greeting := by
        rw [hclosing]
        exact Phase.noConfusion
      have hp := (h.2 p).goes .ready Phase.noConfusion Phase.noConfusion
        fun _ => ⟨hlive, (h.2 p).monitored hlive hgreeted⟩
      exact h.setSlave (hp.keeps (Slave.keeps_shakehandReady _))
  | REGISTER hready hnone => exact h.REGISTER hready hnone
  | QUERYNAME hready => exact h.QUERYNAME hready
  | ask => exact h.ask
  | LINK => exact h.keeps (Slave.keeps_LINK _ _ _)
  | CONNECT => exact h.keeps (Slave.keeps_CONNECT _ _ _)
  | harborDown => exact h.keeps (Slave.keeps_harborDown _ _)
  | @crash p => exact h.setSlave ((h.2 p).goes .down Phase.noConfusion Phase.noConfusion fun hlive => absurd hlive id)

omit [DecidableEq ι] in
theorem sound_start :
  Sound pack (State.start ι ν α)
  := by
  constructor
  · refine ⟨List.nodup_nil, fun v hv => absurd hv List.not_mem_nil, fun p id hid => Conn.noConfusion hid, ?_⟩
    rintro name a ⟨⟩
  · intro p
    refine ⟨fun _ => rfl, fun hlive => absurd hlive id, fun _ _ => rfl, fun _ => ⟨rfl, fun _ => rfl⟩, ?_,
      List.nodup_nil, ?_, fun hlive => absurd hlive id, ?_⟩
    · exact fun name a hmem => absurd hmem List.not_mem_nil
    · exact fun name hname => absurd hname List.not_mem_nil
    · exact fun id w hw => absurd hw List.not_mem_nil

/-- What the requests wait for that a slave has not answered. -/
structure Waits (x : Slave ι ν α) (up : List (Report ι ν α)) (down : List (Notice ι ν α)) (g : ν → Option α) :
    Prop where
  queries : ∀ name, x.queryname name ≠ [] →
    x.globalname.lookup name = none ∧ (.Q name ∈ up ∨ (∃ a, .N name a ∈ down) ∨ g name = none)
  links : ∀ id r, .LINK r ∈ x.monitor id → ∃ fd, x.slaves.lookup id = some (some fd)
  connects : ∀ id r, .CONNECT r ∈ x.monitor id → x.slaves.lookup id = none ∨ x.slaves.lookup id = some none

/-- No slave that runs forgets a request: a query waits for what is on its way to the master or from it, or for a
name that the master does not know; `LINK` waits while there is a connection, and `CONNECT` while there is none. -/
theorem requests_wait (ls : List (Step ι ν α)) :
  (network pack harbor).Always
    (fun s => ∀ p, (s.slave p).phase.Live → Waits (s.slave p) (s.up p) (s.down p) s.global_name) (.start ι ν α) ls
  := by
  have hkept (s : State ι ν α) (l : Step ι ν α) (t : State ι ν α) (h : Sound pack s)
      (hstep : (network pack harbor).step s l = some t) : Sound pack t := h.step hstep
  refine (Machine.always_of_invariant hkept sound_start ls).mono ?_
  intro s hsound p hlive
  have hp := hsound.2 p
  constructor
  · exact hp.queries hlive
  · intro id r hmem
    have hsome : ((s.slave p).slaves.lookup id).join.isSome = true := hp.watches id _ hmem
    obtain ⟨fd, hfd⟩ := Option.isSome_iff_exists.mp hsome
    exact ⟨fd, Option.join_eq_some_iff.mp hfd⟩
  · intro id r hmem
    have hnone : ((s.slave p).slaves.lookup id).join.isSome = false := hp.watches id _ hmem
    rw [Option.isSome_eq_false_iff, Option.isNone_iff_eq_none] at hnone
    cases hlookup : (s.slave p).slaves.lookup id with
    | none => exact .inl rfl
    | some v =>
        rw [hlookup] at hnone
        exact .inr (congrArg some hnone)

end Steps

end Slaves

end Skynet
