import FWServer.Skynet.SlaveNames
import Mathlib.Data.List.Induction

/-!
# Agreement on the names

A slave agrees with the master on a name when what it will know of it, once it has read what is on its way, is what
the master knows, or what it has registered itself and the master has not read.  A step keeps all of them in agreement
exactly when it is `Consistent`.  The master broadcasts a second address for a name and keeps the first, which is
harmless only when the sender has died and every live slave has registered the second address too; and a name that is
too long to be sent is harmless only when the master has that address, or the slave is about to be told one.
-/

namespace Skynet

namespace Slaves

variable {ι ν α : Type} {pack : Packing ν α} {harbor : ι → ℕ}

/-! ### What a slave will know -/

section Known

variable [DecidableEq ν]

/-- What a package tells of the names. -/
def Notice.learn (f : ν → Option α) : Notice ι ν α → ν → Option α
  | .N name a => Function.update f name (some a)
  | _ => f

/-- The addresses that a slave knows once it has read what is on its way. -/
def known (x : Slave ι ν α) (down : List (Notice ι ν α)) : ν → Option α :=
  down.foldl Notice.learn fun name => x.globalname.lookup name

variable {x y : Slave ι ν α} {down : List (Notice ι ν α)} {name : ν} {a : α} {m : Notice ι ν α} {f g : ν → Option α}

theorem Notice.learn_of_ne (f : ν → Option α) (hm : ∀ a, m ≠ .N name a) :
  m.learn f name = f name
  := by
  cases m with
  | N name' a =>
      have hne : name ≠ name' := by
        rintro rfl
        exact hm a rfl
      exact Function.update_of_ne hne _ _
  | _ => rfl

/-- The last package that tells a name counts. -/
theorem foldl_learn_of_mem (hmem : .N name a ∈ down) (f g : ν → Option α) :
  down.foldl Notice.learn f name = down.foldl Notice.learn g name
  := by
  induction down using List.reverseRecOn with
  | nil => exact absurd hmem List.not_mem_nil
  | append_singleton down m ih =>
      rw [List.foldl_append, List.foldl_append]
      change m.learn _ name = m.learn _ name
      by_cases hm : ∀ b, m ≠ .N name b
      · rw [m.learn_of_ne _ hm, m.learn_of_ne _ hm]
        refine ih ((List.mem_append.mp hmem).resolve_right fun hlast => ?_)
        exact hm a (List.mem_singleton.mp hlast).symm
      · push Not at hm
        obtain ⟨b, rfl⟩ := hm
        rw [Notice.learn, Function.update_self, Notice.learn, Function.update_self]

theorem foldl_learn_of_not_mem (hmem : ∀ a, .N name a ∉ down) (f : ν → Option α) :
  down.foldl Notice.learn f name = f name
  := by
  induction down generalizing f with
  | nil => rfl
  | cons m down ih =>
      rw [List.foldl_cons, ih fun a ha => hmem a (List.mem_cons_of_mem m ha)]
      exact Notice.learn_of_ne f fun a heq => hmem a (heq ▸ List.mem_cons_self)

theorem known_append (x : Slave ι ν α) (down : List (Notice ι ν α)) (k : ℕ) (hm : ∀ a, m ≠ .N name a) :
  known x (down ++ List.replicate k m) name = known x down name
  := by
  unfold known
  rw [List.foldl_append]
  apply foldl_learn_of_not_mem
  intro a hmem
  exact hm a (List.mem_replicate.mp hmem).2.symm

/-- The slave has been told a name. -/
theorem known_told (x : Slave ι ν α) (down : List (Notice ι ν α)) {k : ℕ} (hk : 0 < k) (name : ν) (a : α) :
  known x (down ++ List.replicate k (.N name a)) name = some a
  := by
  obtain ⟨k, rfl⟩ := Nat.exists_eq_add_one_of_ne_zero (Nat.ne_of_gt hk)
  unfold known
  rw [List.replicate_succ', ← List.append_assoc, List.foldl_append]
  exact Function.update_self _ _ _

theorem known_nil (hblank : x.globalname = ∅) :
  known x [] name = none
  := by
  change x.globalname.lookup name = none
  rw [hblank, AList.lookup_empty]

theorem known_congr (hglobalname : y.globalname = x.globalname) :
  known y down = known x down
  := by
  unfold known
  rw [hglobalname]

/-- What has been read has counted before. -/
theorem known_insert {name : ν} {a : α} (hglobalname : y.globalname = x.globalname.insert name a) :
  known y down = known x (.N name a :: down)
  := by
  unfold known
  rw [List.foldl_cons, hglobalname]
  congr 1
  funext name'
  rcases eq_or_ne name' name with rfl | hne
  · rw [AList.lookup_insert, Notice.learn, Function.update_self]
  · rw [AList.lookup_insert_ne hne, Notice.learn, Function.update_of_ne hne]

end Known

/-! ### Agreement -/

section Agreement

variable [DecidableEq ν]

/-- A slave that runs agrees with the master. -/
def Agrees (x : Slave ι ν α) (up : List (Report ι ν α)) (down : List (Notice ι ν α)) (g : ν → Option α) : Prop :=
  x.phase.Live → ∀ name a, known x down name = some a → g name = some a ∨ .R name a ∈ up

/-- The slaves that run agree with the master. -/
def Agree (s : State ι ν α) : Prop :=
  ∀ p, Agrees (s.slave p) (s.up p) (s.down p) s.global_name

/-- The master has no other address for a name that it reads, unless the sender has died and every live slave that it
tells has the same registration on its way; and a name that is registered is sent, unless the master has that address
already or has told the slave one that it has yet to read. -/
def Consistent (pack : Packing ν α) (s : State ι ν α) : Step ι ν α → Prop
  | .receive p =>
      ∀ id name a rest, s.conn p = .monitor id → s.up p = .R name a :: rest →
        s.global_name name = none ∨ s.global_name name = some a ∨
          ∀ q ∈ s.fds, (s.slave q).phase.Live → q ≠ p ∧ .R name a ∈ s.up q
  | .REGISTER p name handle =>
      pack.fits name handle ∨ s.global_name name = some handle ∨ ∃ a, .N name a ∈ s.down p
  | _ => True

variable {x y : Slave ι ν α} {up : List (Report ι ν α)} {down : List (Notice ι ν α)} {g : ν → Option α}
  {s t : State ι ν α} {p : ι}

theorem Agrees.of_not_live (h : ¬ x.phase.Live) :
  Agrees x up down g
  := fun hlive => absurd hlive h

theorem Agrees.keeps (h : Agrees x up down g) (hphase : y.phase.Live → x.phase.Live)
    (hglobalname : y.globalname = x.globalname) :
  Agrees y up down g
  := by
  intro hlive name a hname
  rw [known_congr hglobalname] at hname
  exact h (hphase hlive) name a hname

/-- A slave that the master does not monitor knows no name. -/
theorem Process.known_eq_none {c : Conn} (h : Process pack c x up down g) (hlive : x.phase.Live)
    (hc : ∀ id, c ≠ .monitor id) (name : ν) :
  known x down name = none
  := by
  have hgreeting : x.phase = .greeting := by
    by_contra hne
    obtain ⟨id, hid⟩ := h.monitored hlive hne
    exact hc id hid
  have hdown : x.phase ≠ .down := by
    rw [hgreeting]
    exact Phase.noConfusion
  rw [h.untold hc hdown]
  exact known_nil (h.blank (.inr hgreeting)).1

/-- A slave that tells no name is written to. -/
theorem Agrees.write {m : Notice ι ν α} (h : Agrees x up down g) (k : ℕ) (hm : ∀ name a, m ≠ .N name a) :
  Agrees x up (down ++ List.replicate k m) g
  := by
  intro hlive name a hname
  rw [known_append x down k (hm name)] at hname
  exact h hlive name a hname

/-- The master reads a package that registers nothing. -/
theorem Agrees.receive {m : Report ι ν α} (h : Agrees x (m :: up) down g) (hm : ∀ name a, m ≠ .R name a) :
  Agrees x up down g
  := by
  intro hlive name a hname
  exact (h hlive name a hname).imp_right fun hmem => (List.mem_cons.mp hmem).resolve_left fun heq => hm name a heq.symm

theorem Agrees.append (h : Agrees x up down g) (m : Report ι ν α) :
  Agrees x (up ++ [m]) down g
  := fun hlive name a hname => (h hlive name a hname).imp_right (List.mem_append_left _)

/-- What a slave will know of the names that it registers: it may be told another address. -/
theorem known_registered {name : ν} {a : α} (down : List (Notice ι ν α))
    (hglobalname : y.globalname = x.globalname.insert name a) (name' : ν) :
  known y down name' = known x down name' ∨
    name' = name ∧ known y down name' = some a ∧ ∀ b, .N name b ∉ down
  := by
  unfold known
  by_cases hmem : ∃ b, .N name' b ∈ down
  · obtain ⟨b, hb⟩ := hmem
    exact .inl (foldl_learn_of_mem hb _ _)
  · push Not at hmem
    rw [foldl_learn_of_not_mem hmem, foldl_learn_of_not_mem hmem, hglobalname]
    rcases eq_or_ne name' name with rfl | hne
    · exact .inr ⟨rfl, AList.lookup_insert _, hmem⟩
    · exact .inl (AList.lookup_insert_ne hne)

/-- A slave registers a name and does not send it. -/
theorem Agrees.register_iff {name : ν} {a : α} (h : Agrees x up down g) (hx : x.phase.Live) (hy : y.phase.Live)
    (hglobalname : y.globalname = x.globalname.insert name a) (hup : .R name a ∉ up) :
  Agrees y up down g ↔ g name = some a ∨ ∃ b, .N name b ∈ down
  := by
  constructor
  · intro hagrees
    by_cases hmem : ∃ b, .N name b ∈ down
    · exact .inr hmem
    · push Not at hmem
      have hname : known y down name = some a := by
        unfold known
        rw [foldl_learn_of_not_mem hmem, hglobalname, AList.lookup_insert]
      exact .inl ((hagrees hy name a hname).resolve_right hup)
  · intro hok _ name' b hname
    obtain heq | ⟨rfl, heq, hmem⟩ := known_registered down hglobalname name'
    · exact h hx name' b (heq.symm.trans hname)
    · obtain rfl := Option.some.inj (heq.symm.trans hname)
      exact .inl (hok.resolve_right fun ⟨b, hb⟩ => hmem b hb)

theorem agree_start :
  Agree (State.start ι ν α)
  := fun _ hlive => absurd hlive id

/-- Only one slave and its connection are concerned. -/
theorem Agree.local (h : Agree s) (hglobal : t.global_name = s.global_name)
    (hother : ∀ q, q ≠ p → t.slave q = s.slave q ∧ t.up q = s.up q ∧ t.down q = s.down q)
    (hp : Agrees (t.slave p) (t.up p) (t.down p) s.global_name) :
  Agree t
  := by
  intro q
  rw [hglobal]
  rcases eq_or_ne q p with rfl | hne
  · exact hp
  · obtain ⟨h₁, h₂, h₃⟩ := hother q hne
    rw [h₁, h₂, h₃]
    exact h q

variable [DecidableEq ι]

theorem Agree.setSlave (h : Agree s) {x : Slave ι ν α} (hx : Agrees x (s.up p) (s.down p) s.global_name) :
  Agree (s.setSlave p x)
  := by
  refine h.local (p := p) rfl (fun q hne => ⟨Function.update_of_ne hne _ _, rfl, rfl⟩) ?_
  rw [show (s.setSlave p x).slave p = x from Function.update_self _ _ _]
  exact hx

theorem Agree.keeps (h : Agree s) {x : Slave ι ν α} (hphase : x.phase.Live → (s.slave p).phase.Live)
    (hglobalname : x.globalname = (s.slave p).globalname) :
  Agree (s.setSlave p x)
  := h.setSlave ((h p).keeps hphase hglobalname)

/-- The master writes to some slaves, and reads a package that registers nothing. -/
theorem Agree.write {m : Notice ι ν α} (h : Agree s) (fds : List ι) (hm : ∀ name a, m ≠ .N name a) :
  Agree (s.write fds m)
  := by
  intro q
  rw [State.write_down]
  exact (h q).write _ hm

theorem Agree.join (h : Agree s) (hsound : Sound pack s) (hoff : (s.slave p).phase = .off) :
  Agree { s with
    conn := Function.update s.conn p .handshake
    slave := Function.update s.slave p { s.slave p with phase := .greeting }
    up := Function.update s.up p [.H (harbor p) p] }
  := by
  have hp := hsound.2 p
  have hdown := hp.untold (fun id hid => Conn.noConfusion ((hp.idle hoff).symm.trans hid)) fun hdown =>
    Phase.noConfusion (hoff.symm.trans hdown)
  refine h.local (p := p) rfl (fun q hne =>
    ⟨Function.update_of_ne hne _ _, Function.update_of_ne hne _ _, rfl⟩) ?_
  dsimp only
  rw [Function.update_self, Function.update_self, hdown]
  intro _ name a hname
  have hnone : known { s.slave p with phase := .greeting } [] name = none := known_nil (hp.blank (.inl hoff)).1
  cases hnone.symm.trans hname

/-- A package of a slave that is not monitored is read. -/
theorem Agree.forget (h : Agree s) (hsound : Sound pack s) (hconn : s.conn p = .handshake)
    (up : List (Report ι ν α)) (conn : ι → Conn) :
  Agree { s with up := Function.update s.up p up, conn := conn }
  := by
  refine h.local (p := p) rfl (fun q hne => ⟨rfl, Function.update_of_ne hne _ _, rfl⟩) ?_
  intro hlive name a hname
  have hnone := (hsound.2 p).known_eq_none hlive (fun id hid => Conn.noConfusion (hconn.symm.trans hid)) name
  cases hnone.symm.trans hname

theorem Agree.handshake {m : Report ι ν α} {rest : List (Report ι ν α)} (h : Agree s) (hsound : Sound pack s)
    (hconn : s.conn p = .handshake) :
  Agree ({ s with up := Function.update s.up p rest }.handshake p m)
  := by
  cases m with
  | R name a => exact h.forget hsound hconn rest _
  | Q name => exact h.forget hsound hconn rest _
  | H slave_id slave_addr =>
      rw [State.handshake]
      split
      · exact h.forget hsound hconn rest _
      · refine fun q => ((h.forget hsound hconn rest s.conn).write _ ?_).write _ ?_ q
        · rintro name a ⟨⟩
        · rintro name a ⟨⟩

/-- The end of `monitor_slave`, when the slave is down. -/
theorem Agree.slaveDown {slave_id : ℕ} {up : List (Report ι ν α)} (h : Agree s) (hphase : (s.slave p).phase = .down) :
  Agree ({ s with up := Function.update s.up p up }.slaveDown p slave_id)
  := by
  have hdead : ¬ (s.slave p).phase.Live := by
    rw [hphase]
    exact id
  have hread : Agree { s with
      up := Function.update s.up p up
      slave_node := s.slave_node.map fun v : Node ι => if v.id = slave_id then { v with fd := none } else v
      conn := Function.update s.conn p .closed } :=
    h.local (p := p) rfl (fun q hne => ⟨rfl, Function.update_of_ne hne _ _, rfl⟩) (.of_not_live hdead)
  exact hread.write _ (by rintro name a ⟨⟩)

theorem Agree.notice {m : Notice ι ν α} {rest : List (Notice ι ν α)} (h : Agree s)
    (hdown : s.down p = m :: rest) :
  Agree ({ s with down := Function.update s.down p rest }.setSlave p ((s.slave p).notice m))
  := by
  refine h.local (p := p) rfl (fun q hne => ⟨Function.update_of_ne hne _ _, rfl,
    Function.update_of_ne hne _ _⟩) ?_
  change Agrees (Function.update s.slave p _ p) (s.up p) (Function.update s.down p rest p) _
  rw [Function.update_self, Function.update_self]
  have hp := h p
  rw [hdown] at hp
  unfold Slave.notice
  split
  · next hgreeting =>
      cases m with
      | W n =>
          intro _ name a hname
          exact hp (by rw [hgreeting]; trivial) name a hname
      | _ => exact .of_not_live id
  · by_cases hm : ∀ name a, m ≠ .N name a
    · have hk := Slave.keeps_monitor_master (x := s.slave p) hm
      intro hlive name a hname
      rw [known_congr hk.globalname] at hname
      rw [hk.phase] at hlive
      refine hp hlive name a ?_
      rw [← hname]
      unfold known
      rw [List.foldl_cons]
      cases m with
      | N name a => exact absurd rfl (hm name a)
      | _ => rfl
    · push Not at hm
      obtain ⟨name, a, rfl⟩ := hm
      have hk := Slave.keeps_monitor_master_N (s.slave p) name a
      intro hlive name' a' hname
      rw [known_insert hk.globalname] at hname
      rw [hk.phase] at hlive
      exact hp hlive name' a' hname

/-- The master reads a name that is registered, and tells it. -/
theorem Agree.learn_iff {name : ν} {a : α} {rest : List (Report ι ν α)} {slave_id : ℕ} (h : Agree s)
    (hsound : Sound pack s) (hconn : s.conn p = .monitor slave_id) (hup : s.up p = .R name a :: rest) :
  Agree ({ s with
    up := Function.update s.up p rest
    global_name := Function.update s.global_name name (some ((s.global_name name).getD a)) }.write s.fds
      (.N name a)) ↔ Consistent pack s (.receive p)
  := by
  have hnew : .R name a ∉ rest := by
    intro hmem
    have hnodup := (hsound.2 p).nodup
    rw [hup, List.filterMap_cons_some (show (Report.R name a).registers = some name from rfl)] at hnodup
    exact (List.nodup_cons.mp hnodup).1 (List.mem_filterMap.mpr ⟨_, hmem, rfl⟩)
  constructor
  · intro ht
    rintro id name' a' rest' - heq
    obtain ⟨hm, -⟩ := List.cons.inj (hup.symm.trans heq)
    cases hm
    cases hg : s.global_name name with
    | none => exact .inl rfl
    | some b =>
        by_cases hab : b = a
        · exact .inr (.inl (congrArg some hab))
        refine .inr (.inr fun q hq hlive => ?_)
        have hagrees := ht q hlive name a
        rw [State.write_down, known_told _ _ (List.count_pos_iff.mpr hq)] at hagrees
        have hmem : .R name a ∈ Function.update s.up p rest q := by
          refine (hagrees rfl).resolve_left fun heq => hab ?_
          change Function.update s.global_name name _ name = some a at heq
          rw [Function.update_self, hg] at heq
          exact Option.some.inj heq
        rcases eq_or_ne q p with rfl | hne
        · rw [Function.update_self] at hmem
          exact absurd hmem hnew
        · rw [Function.update_of_ne hne] at hmem
          exact ⟨hne, hmem⟩
  · intro hok q hlive name' b hname
    rw [State.write_down] at hname
    change Function.update s.global_name name _ name' = some b ∨ .R name' b ∈ Function.update s.up p rest q
    rcases eq_or_ne name' name with rfl | hne
    · rcases Nat.eq_zero_or_pos (s.fds.count q) with hzero | hpos
      · -- A slave that is not told is not monitored, and knows no name.
        have hc (id : ℕ) : s.conn q ≠ .monitor id := fun hid =>
          List.count_eq_zero.mp hzero (hsound.1.mem_fds.mpr ⟨id, hid⟩)
        change known (s.slave q) (s.down q ++ List.replicate (s.fds.count q) _) _ = _ at hname
        rw [hzero, List.replicate_zero, List.append_nil, (hsound.2 q).known_eq_none hlive hc] at hname
        cases hname
      · have hb : b = a := Option.some.inj (hname.symm.trans (known_told _ _ hpos _ _))
        rw [Function.update_self, hb]
        rcases hok slave_id name' a rest hconn hup with hg | hg | hg
        · rw [hg]
          exact .inl rfl
        · rw [hg]
          exact .inl rfl
        · obtain ⟨hne, hmem⟩ := hg q (List.count_pos_iff.mp hpos) hlive
          rw [Function.update_of_ne hne]
          exact .inr hmem
    · rw [Function.update_of_ne hne]
      have hold : known (s.slave q) (s.down q) name' = some b := by
        refine (known_append _ _ _ fun a heq => ?_).symm.trans hname
        cases heq
        exact hne rfl
      refine (h q hlive name' b hold).imp_right fun hmem => ?_
      rcases eq_or_ne q p with rfl | hqp
      · rw [Function.update_self]
        rw [hup] at hmem
        refine (List.mem_cons.mp hmem).resolve_left fun heq => ?_
        cases heq
        exact hne rfl
      · rwa [Function.update_of_ne hqp]

/-- The master reads a package of a slave that it monitors: a name that it learns, or has, is what it tells. -/
theorem Agree.dispatch_iff {m : Report ι ν α} {rest : List (Report ι ν α)} {slave_id : ℕ} (h : Agree s)
    (hsound : Sound pack s) (hconn : s.conn p = .monitor slave_id) (hup : s.up p = m :: rest) :
  Agree ({ s with up := Function.update s.up p rest }.dispatch_slave pack p slave_id m) ↔
    Consistent pack s (.receive p)
  := by
  have hread (hm : ∀ name a, m ≠ .R name a) : Agree { s with up := Function.update s.up p rest } := by
    refine h.local (p := p) rfl (fun q hne => ⟨rfl, Function.update_of_ne hne _ _, rfl⟩) ?_
    dsimp only
    rw [Function.update_self]
    have hp := h p
    rw [hup] at hp
    exact hp.receive hm
  cases m with
  | H id addr =>
      refine iff_of_true (hread (by rintro name a ⟨⟩)) ?_
      rintro id name a rest' - heq
      cases hup.symm.trans heq
  | Q name =>
      refine iff_of_true ?_ ?_
      · rw [State.dispatch_slave]
        split
        · exact hread (by rintro name a ⟨⟩)
        · next b hsome =>
            rw [if_pos (hsound.1.fits name b hsome)]
            intro q hlive name' a hname
            rw [State.write_down] at hname
            have hq := hread (by rintro name a ⟨⟩) q hlive name' a
            rcases Nat.eq_zero_or_pos ([p].count q) with hzero | hpos
            · rw [hzero, List.replicate_zero, List.append_nil] at hname
              exact hq hname
            · rcases eq_or_ne name' name with rfl | hne
              · rw [known_told _ _ hpos] at hname
                exact .inl (hsome.trans hname)
              · refine hq ((known_append _ _ _ fun a heq => ?_).symm.trans hname)
                cases heq
                exact hne rfl
      · rintro id name a rest' - heq
        cases hup.symm.trans heq
  | R name a =>
      rw [State.dispatch_slave]
      dsimp only
      rw [if_pos ((hsound.2 p).fits name a (hup ▸ List.mem_cons_self))]
      exact h.learn_iff hsound hconn hup

/-- A slave that sends a package. -/
theorem Agree.send {x : Slave ι ν α} {m : Report ι ν α} (h : Agree s)
    (hx : Agrees x (s.up p ++ [m]) (s.down p) s.global_name) :
  Agree ((s.setSlave p x).send p m)
  := by
  refine h.local (p := p) rfl (fun q hne => ⟨Function.update_of_ne hne _ _, Function.update_of_ne hne _ _, rfl⟩) ?_
  change Agrees (Function.update s.slave p x p) (Function.update s.up p _ p) (s.down p) s.global_name
  rw [Function.update_self, Function.update_self]
  exact hx

theorem Agree.REGISTER_iff {name : ν} {handle : α} (h : Agree s) (hsound : Sound pack s)
    (hready : (s.slave p).phase = .ready) (hnone : (s.slave p).globalname.lookup name = none) :
  Agree (s.REGISTER pack p name handle) ↔ Consistent pack s (.REGISTER p name handle)
  := by
  have hlive : (s.slave p).phase.Live := by
    rw [hready]
    trivial
  unfold State.REGISTER
  dsimp only
  split
  · next hfits =>
      refine iff_of_true (h.send ?_) (.inl hfits)
      intro _ name' b hname
      have hknown := known_registered (x := s.slave p) (y := ({ s.slave p with
        globalname := (s.slave p).globalname.insert name handle }.response_name name).tellName name handle)
        (s.down p) rfl name'
      obtain heq | ⟨rfl, heq, -⟩ := hknown
      · exact (h p).append _ hlive name' b (heq.symm.trans hname)
      · obtain rfl := Option.some.inj (heq.symm.trans hname)
        exact .inr (List.mem_append_right _ (List.mem_singleton_self _))
  · next hfits =>
      have hup : .R name handle ∉ s.up p := fun hmem =>
        (hsound.2 p).registered name (List.mem_filterMap.mpr ⟨_, hmem, rfl⟩) hnone
      have hexact := (h p).register_iff (y := { s.slave p with
        globalname := (s.slave p).globalname.insert name handle }.response_name name) hlive hlive rfl hup
      constructor
      · intro ht
        have hp := ht p
        rw [show (State.setSlave s p _).slave p = _ from Function.update_self _ _ _] at hp
        exact .inr (hexact.mp hp)
      · intro hok
        exact h.setSlave (hexact.mpr (hok.resolve_left hfits))

/-- A slave answers a query, or passes it on. -/
theorem Agree.QUERYNAME (h : Agree s) (name : ν) (r : ℕ) :
  Agree (s.QUERYNAME pack p name r)
  := by
  unfold State.QUERYNAME
  split
  · exact h.keeps id rfl
  · dsimp only
    split
    · split
      · exact h.send (((h p).append _).keeps id rfl)
      · exact h
    · exact h.keeps id rfl

theorem Agree.ask (h : Agree s) (name : ν) :
  Agree (s.ask pack p name)
  := by
  unfold State.ask
  split
  · exact h.keeps id rfl
  · split
    · refine h.local (p := p) rfl (fun q hne => ⟨rfl, Function.update_of_ne hne _ _, rfl⟩) ?_
      rw [show (s.send p (.Q name)).up p = s.up p ++ [.Q name] from Function.update_self _ _ _]
      exact (h p).append _
    · exact h

theorem Agree.openTo (h : Agree s) (q : ι) :
  Agree (s.openTo p q)
  := by
  unfold State.openTo
  split <;> exact h

theorem Agree.opened {q : ι} {x : Slave ι ν α} (h : Agree s) (hk : (s.slave p).Keeps x) :
  Agree ((s.openTo p q).setSlave p x)
  := by
  refine (h.openTo q).setSlave ?_
  have hp : Agrees x (s.up p) (s.down p) s.global_name := (h p).keeps (fun hlive => hk.phase ▸ hlive) hk.globalname
  unfold State.openTo
  split <;> exact hp

/-- From a state in which the slaves agree with the master, a step leads to one exactly when it is consistent. -/
theorem agree_step_iff {l : Step ι ν α} (hsound : Sound pack s) (h : Agree s) (hstep : step pack harbor s l = some t) :
  Agree t ↔ Consistent pack s l
  := by
  cases moves_of_step pack harbor hstep with
  | join hoff => exact iff_of_true (h.join hsound hoff) trivial
  | handshake hconn hup =>
      refine iff_of_true (h.handshake hsound hconn) ?_
      intro id name a rest hconn'
      cases hconn.symm.trans hconn'
  | dispatch hconn hup => exact h.dispatch_iff hsound hconn hup
  | loseHandshake hdown hconn => exact iff_of_true (h.forget hsound hconn _ _) trivial
  | lose hdown hconn => exact iff_of_true (h.slaveDown hdown) trivial
  | notice hdown => exact iff_of_true (h.notice hdown) trivial
  | refused => exact iff_of_true (h.keeps (fun hlive => absurd hlive id) rfl) trivial
  | opened => exact iff_of_true (h.opened (Slave.keeps_opened _ _ _ _)) trivial
  | linked => exact iff_of_true (h.opened ((Slave.keeps_connected _ _ _ _).trans (Slave.keeps_ready _ _))) trivial
  | @accept p q byte _ hlive =>
      refine iff_of_true (Agree.keeps (s := { s with incoming := _ }) h (fun _ => hlive) ?_) trivial
      obtain hk | ⟨-, hk⟩ := Slave.keeps_accepted (s.slave p) q (if byte then some (harbor q) else none)
      · exact hk.globalname
      · exact hk.globalname
  | shakehand hclosing =>
      refine iff_of_true (h.keeps (fun _ => ?_) (Slave.keeps_shakehandReady _).globalname) trivial
      rw [hclosing]
      trivial
  | REGISTER hready hnone => exact h.REGISTER_iff hsound hready hnone
  | QUERYNAME => exact iff_of_true (h.QUERYNAME _ _) trivial
  | ask => exact iff_of_true (h.ask _) trivial
  | @LINK p id r =>
      have hk := Slave.keeps_LINK (s.slave p) id r
      exact iff_of_true (h.keeps (fun hlive => hk.phase ▸ hlive) hk.globalname) trivial
  | @CONNECT p id r =>
      have hk := Slave.keeps_CONNECT (s.slave p) id r
      exact iff_of_true (h.keeps (fun hlive => hk.phase ▸ hlive) hk.globalname) trivial
  | @harborDown p id =>
      have hk := Slave.keeps_harborDown (s.slave p) id
      exact iff_of_true (h.keeps (fun hlive => hk.phase ▸ hlive) hk.globalname) trivial
  | crash => exact iff_of_true (h.keeps (fun hlive => absurd hlive id) rfl) trivial

/-- Along a run the slaves agree with the master on the names precisely when all its steps are consistent. -/
theorem names_agree_iff (ls : List (Step ι ν α)) :
  (network pack harbor).Always Agree (.start ι ν α) ls ↔
    (network pack harbor).Guarded (Consistent pack) (.start ι ν α) ls
  := by
  have hexact (s : State ι ν α) (l : Step ι ν α) (t : State ι ν α) (h : Sound pack s ∧ Agree s)
      (hstep : (network pack harbor).step s l = some t) : (Sound pack t ∧ Agree t) ↔ Consistent pack s l :=
    (and_iff_right (h.1.step hstep)).trans (agree_step_iff h.1 h.2 hstep)
  rw [← Machine.always_iff_guarded hexact ⟨sound_start, agree_start⟩ ls]
  constructor
  · exact Machine.Always.strengthen (fun _ _ _ h hstep hagree => ⟨h.1.step hstep, hagree⟩) ⟨sound_start, agree_start⟩
  · exact fun h => h.mono fun _ hs => hs.2

end Agreement

end Slaves

end Skynet
