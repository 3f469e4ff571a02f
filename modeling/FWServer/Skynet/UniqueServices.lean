import FWServer.Skynet.ServiceMgr
import Mathlib.Data.List.Nodup

/-!
# Unique services

Every service is launched at most once, by the manager of its name, all answers to requests for it agree, and
while one that is to launch it waits, it has been launched or a request to do so is on its way
(`services_unique`); as long as no launch of a global service meets a query that its manager has passed on
before, no manager launches under a global name itself, and no error is answered to another manager.
-/

namespace Skynet

namespace ServiceMgr

variable {ν : Type} [DecidableEq ν] {g n m : ν} {st st' : State ν} {c d : Coroutine ν} {r q : ℕ}
  {name : Name} {target : Target} {e e' : Entry} {a : Answer}

/-- The node whose manager launches the services of a name. -/
def home (g n : ν) (name : Name) : ν :=
  if name.head? = some sign then g else n

/-- A launch of a name has been issued, or a request to do so is on its way. -/
def Issued (g : ν) (st : State ν) (n : ν) (name : Name) : Prop :=
  (home g n name, name) ∈ st.launched ∨ ∃ q d target, st.coroutine q = some d ∧ d.task = .asked ∧
    d.command = .LAUNCH ∧ d.node = home g n name ∧ d.target g = some target ∧ target.name = name

/-- The answers are the same handle, or the same error but for the line. -/
def Agree : Answer → Answer → Prop
  | .handle h, .handle h' => h = h'
  | .error _ e, .error _ e' => e = e'
  | _, _ => False

/-- A coroutine that has begun and not ended. -/
def Task.pending : Task → Prop
  | .waiting | .launching | .calling => True
  | _ => False

/-- No service is launched twice, or by a manager that is not the one of its name; answers to requests for it
agree; and where a request to launch it is pending, its launch has been issued or is on its way. -/
structure Unique (g : ν) (st : State ν) : Prop where
  once : st.launched.Nodup
  managed : ∀ n name, (n, name) ∈ st.launched → n = home g n name
  agree : ∀ r r' c c' target target' a a', st.coroutine r = some c → st.coroutine r' = some c' →
    c.target g = some target → c'.target g = some target' → target.name = target'.name →
    home g c.node target.name = home g c'.node target.name → c.task = .answered a → c'.task = .answered a' →
    Agree a a'
  issued : ∀ r c target, st.coroutine r = some c → c.target g = some target → c.command.launches = true →
    c.task.pending → Issued g st c.node target.name

/-- A request for `snaxd` names a service. -/
def Admitted (g : ν) : Event ν → Prop
  | .request n command name subname => ∃ target, cmd (decide (n = g)) name subname command = some target
  | _ => True

/-- Where a request to launch a service comes to a manager that is not the one of its name, it is passed on, or
its launch has been issued or is on its way. -/
def Passed (g : ν) (st : State ν) (n : ν) (command : Command) (name : Name) : Prop :=
  n ≠ home g n name → command.launches = true →
    match st.service n name with
    | .nil | .table none _ => command = .GLAUNCH
    | .table (some _) _ => Issued g st n name
    | _ => True

/-- Requests to launch are passed on, and no error is answered to another manager. -/
def Heeded (g : ν) (st : State ν) : Event ν → Prop
  | .request n command name subname => ∀ target, cmd (decide (n = g)) name subname command = some target →
      Passed g st n command target.name
  | .reply q => ∀ d, st.coroutine q = some d → ∃ h, d.task = .answered (.handle h)
  | _ => True

/-! ### Names -/

theorem read_name_sign (name : Name) :
  read_name (sign :: name) = name
  := if_pos rfl

omit [DecidableEq ν] in
theorem home_of_global (h : name.head? = some sign) :
  home g n name = g
  := if_pos h

omit [DecidableEq ν] in
@[simp]
theorem home_home (g n : ν) (name : Name) :
  home g (home g n name) name = home g n name
  := by
  unfold home
  split_ifs
  · rfl
  · rfl

omit [DecidableEq ν] in
theorem home_of_away (h : n ≠ home g n name) :
  home g n name = g
  := by
  unfold home at h ⊢
  split_ifs at h ⊢
  · rfl
  · contradiction

omit [DecidableEq ν] in
theorem home_self (g : ν) (name : Name) :
  home g g name = g
  := ite_self g

/-- What a coroutine asks for: a query, a launch at its node, or a call of the standalone manager. -/
inductive Serves (g : ν) (c : Coroutine ν) (target : Target) : Prop
  | query (hfunc : target.func = none) (hcommand : c.command.launches = false)
  | launch {func : Func} (hfunc : target.func = some func)
      (hrequest : ∀ st r n name, request g st r n name func =
        { State.become st r .launching with launched := st.launched ++ [(n, name)] })
      (hcommand : c.command.launches = true) (hnode : c.node = g ∨ c.command = .LAUNCH)
  | call {launch : Bool} {global_name : Name} {subname : Option Name} {func : Option Func}
      (hfunc : target.func = some (.call launch global_name subname)) (hnode : c.node ≠ g)
      (hcommand : c.command.launches = launch) (hglobal : target.name.head? = some sign)
      (hcall : cmd true global_name subname (if launch then .LAUNCH else .QUERY) = some ⟨target.name, func⟩)

omit [DecidableEq ν] in
theorem LAUNCH_spec {subname : Option Name} (h : LAUNCH name subname = some target) :
  ∃ func, target.func = some func ∧ ∀ (st : State ν) r n name, request g st r n name func =
    { State.become st r .launching with launched := st.launched ++ [(n, name)] }
  := by
  unfold LAUNCH at h
  dsimp only at h
  split_ifs at h
  · obtain ⟨sub, -, rfl⟩ := Option.map_eq_some_iff.mp h
    refine ⟨_, rfl, ?_⟩
    intros
    rfl
  · obtain rfl := Option.some.inj h
    refine ⟨_, rfl, ?_⟩
    intros
    rfl

theorem QUERY_spec {subname : Option Name} (h : QUERY name subname = some target) :
  target.func = none
  := by
  unfold QUERY at h
  dsimp only at h
  split_ifs at h
  · obtain ⟨sub, -, rfl⟩ := Option.map_eq_some_iff.mp h
    rfl
  · obtain rfl := Option.some.inj h
    rfl

/-- A call of the standalone manager is for the same name. -/
theorem waitfor_remote_spec {launch : Bool} {subname : Option Name}
    (h : waitfor_remote launch name subname = some target) :
  target.func = some (.call launch (sign :: name) subname) ∧ target.name.head? = some sign ∧
    ∃ func, cmd true (sign :: name) subname (if launch then .LAUNCH else .QUERY) = some ⟨target.name, func⟩
  := by
  unfold waitfor_remote at h
  dsimp only at h
  split_ifs at h with hname
  · obtain ⟨sub, rfl, rfl⟩ := Option.map_eq_some_iff.mp h
    use rfl, rfl
    cases launch with
    | true =>
        use some (.rawnewservice sub)
        apply if_pos ((read_name_sign name).trans hname)
    | false =>
        use none
        apply if_pos ((read_name_sign name).trans hname)
  · obtain rfl := Option.some.inj h
    use rfl, rfl
    cases launch with
    | true =>
        use some (.newservice (read_name (sign :: name)) subname)
        apply if_neg
        rwa [read_name_sign]
    | false =>
        use none
        apply if_neg
        rwa [read_name_sign]

theorem serves (h : c.target g = some target) :
  Serves g c target
  := by
  unfold Coroutine.target at h
  cases hcommand : c.command with
  | LAUNCH =>
      have hlaunches := congrArg Command.launches hcommand
      rw [hcommand] at h
      obtain ⟨func, hfunc, hrequest⟩ := LAUNCH_spec h
      exact .launch hfunc hrequest hlaunches (.inr hcommand)
  | QUERY =>
      have hlaunches := congrArg Command.launches hcommand
      rw [hcommand] at h
      exact .query (QUERY_spec h) hlaunches
  | GLAUNCH =>
      have hlaunches := congrArg Command.launches hcommand
      rw [hcommand] at h
      by_cases hnode : c.node = g
      · rw [decide_eq_true hnode] at h
        obtain ⟨func, hfunc, hrequest⟩ := LAUNCH_spec h
        exact .launch hfunc hrequest hlaunches (.inl hnode)
      · rw [decide_eq_false hnode] at h
        obtain ⟨hfunc, hglobal, func, hcall⟩ := waitfor_remote_spec h
        exact .call hfunc hnode hlaunches hglobal hcall
  | GQUERY =>
      have hlaunches := congrArg Command.launches hcommand
      rw [hcommand] at h
      by_cases hnode : c.node = g
      · rw [decide_eq_true hnode] at h
        exact .query (QUERY_spec h) hlaunches
      · rw [decide_eq_false hnode] at h
        obtain ⟨hfunc, hglobal, func, hcall⟩ := waitfor_remote_spec h
        exact .call hfunc hnode hlaunches hglobal hcall

/-! ### The managers -/

/-- A service that has been asked to be launched: the entry has a coroutine that does, or its result. -/
def Entry.started : Entry → Prop
  | .nil | .table none _ => False
  | _ => True

/-- An entry that has no result. -/
def Entry.isOpen : Entry → Prop
  | .nil | .table _ _ => True
  | _ => False

/-- The result in an entry gives an answer. -/
def Entry.Gives : Entry → Answer → Prop
  | .number h, a => a = .handle h
  | .string e, a => ∃ line, a = .error line e
  | _, _ => False

/-- A coroutine is at an entry. -/
structure At (g : ν) (st : State ν) (n : ν) (name : Name) (r : ℕ) (t : Task) (c : Coroutine ν) : Prop where
  coroutine : st.coroutine r = some c
  node : c.node = n
  target : ∃ func, c.target g = some ⟨name, func⟩
  task : c.task = t

/-- The task of a coroutine that has set `launch`. -/
def runs (g n : ν) (name : Name) : Task :=
  if n = home g n name then .launching else .calling

/-- A coroutine is a call of another manager for a global service. -/
def Calls (g : ν) (st : State ν) (d : Coroutine ν) (r : ℕ) : Prop :=
  d.node = g ∧ ∃ name func func' c, d.target g = some ⟨name, func⟩ ∧ name.head? = some sign ∧
    st.coroutine r = some c ∧ c.node ≠ g ∧ c.target g = some ⟨name, func'⟩

/-- The managers agree with each other and with what has been launched; `busy` is a coroutine that has not begun
and is no call. -/
structure Good (g : ν) (st : State ν) (busy : Option ℕ) : Prop where
  fresh : ∀ r, st.next ≤ r → st.coroutine r = none
  nodup : st.launched.Nodup
  launched : ∀ n name, (n, name) ∈ st.launched ↔ n = home g n name ∧ (st.service n name).started
  away : ∀ n name, n ≠ home g n name → (st.service n name).isOpen ∨
    ∃ h, st.service n name = .number h ∧ st.service g name = .number h
  owner : ∀ n name r cos, st.service n name = .table (some r) cos →
    ∃ c, At g st n name r (runs g n name) c
  listed : ∀ n name launch cos, st.service n name = .table launch cos → ∀ r ∈ cos,
    ∃ c, At g st n name r .waiting c
  owned : ∀ r c target, st.coroutine r = some c → c.target g = some target →
    c.task = .launching ∨ c.task = .calling → ∃ cos, st.service c.node target.name = .table (some r) cos
  answered : ∀ r c target a, st.coroutine r = some c → c.target g = some target → c.task = .answered a →
    (st.service (home g c.node target.name) target.name).Gives a
  calls : ∀ q d r, st.coroutine q = some d → d.caller = some r → Calls g st d r
  asked : ∀ q d, st.coroutine q = some d → d.task = .asked → busy ≠ some q → d.caller ≠ none
  admitted : ∀ r c, st.coroutine r = some c → ∃ target, c.target g = some target
  issued : ∀ r c target, st.coroutine r = some c → c.target g = some target → c.command.launches = true →
    c.task.pending → Issued g st c.node target.name

/-- The state in which an entry has been set and coroutines have gone on. -/
def State.change (st : State ν) (n : ν) (name : Name) (e : Entry) (f : ℕ → Option Task)
    (log : List (ν × Name)) : State ν :=
  { (st.set n name e).goOn f with launched := log }

/-- A step at one entry. -/
structure Changes (g : ν) (st : State ν) (busy : Option ℕ) (n : ν) (name : Name) (e : Entry)
    (f : ℕ → Option Task) (log : List (ν × Name)) : Prop where
  opened : (st.service n name).isOpen ∨ e = st.service n name
  here : ∀ r t, f r = some t → ∃ c t₀, At g st n name r t₀ c
  busy : ∀ r ∈ busy, f r ≠ none
  subset : ∀ p ∈ st.launched, p ∈ log
  others : ∀ p ∈ log, p ≠ (n, name) → p ∈ st.launched
  nodup : log.Nodup
  launched : (n, name) ∈ log ↔ n = home g n name ∧ e.started
  away : n ≠ home g n name → e.isOpen ∨ ∃ h, e = .number h ∧ st.service g name = .number h
  owner : ∀ r cos, e = .table (some r) cos → f r = some (runs g n name) ∨
    f r = none ∧ ∃ cos, st.service n name = .table (some r) cos
  listed : ∀ launch cos, e = .table launch cos → ∀ r ∈ cos, f r = some .waiting ∨
    f r = none ∧ ∃ launch cos, st.service n name = .table launch cos ∧ r ∈ cos
  owned : ∀ r cos, st.service n name = .table (some r) cos → f r = none → ∃ cos, e = .table (some r) cos
  asked : ∀ r, f r ≠ some .asked
  runs : ∀ r t, f r = some t → t = .launching ∨ t = .calling → ∃ cos, e = .table (some r) cos
  answered : ∀ r a, f r = some (.answered a) → n = home g n name ∧ e.Gives a ∨
    n ≠ home g n name ∧ (st.service g name).Gives a
  begun : ∀ r t c, f r = some t → At g st n name r .asked c → c.command = .LAUNCH → n = home g n name →
    (n, name) ∈ log
  issued : ∀ r t t' c, f r = some t → At g st n name r t' c → c.command.launches = true → t.pending →
    Issued g st n name ∨ (n, name) ∈ log ∧ n = home g n name

section

variable {busy : Option ℕ} {f : ℕ → Option Task} {log : List (ν × Name)}

theorem Entry.not_gives (he : e.isOpen) :
  ¬e.Gives a
  := by
  cases e with
  | nil => exact id
  | table launch cos => exact id
  | number h => exact he.elim
  | string e => exact he.elim

/-- Only the service itself answers with its handle. -/
theorem number_of_gives {v : ℕ} (h : e.Gives (.handle v)) :
  e = .number v
  := by
  cases e with
  | nil => exact h.elim
  | table launch cos => exact h.elim
  | number n => rw [Answer.handle.inj h]
  | string e =>
      obtain ⟨line, hline⟩ := h
      cases hline

theorem service_change_self (st : State ν) (n : ν) (name : Name) (e : Entry) (f : ℕ → Option Task)
    (log : List (ν × Name)) :
  (st.change n name e f log).service n name = e
  := by
  change Function.update st.service n _ n name = e
  rw [Function.update_self, Function.update_self]

theorem service_change_of_ne {name' : Name} (h : ¬(m = n ∧ name' = name)) (st : State ν) (e : Entry)
    (f : ℕ → Option Task) (log : List (ν × Name)) :
  (st.change n name e f log).service m name' = st.service m name'
  := by
  change Function.update st.service n _ m name' = _
  rcases eq_or_ne m n with rfl | hne
  · rw [Function.update_self, Function.update_of_ne]
    rintro rfl
    apply h ⟨rfl, rfl⟩
  · rw [Function.update_of_ne hne]

theorem coroutine_change (st : State ν) (n : ν) (name : Name) (e : Entry) (f : ℕ → Option Task)
    (log : List (ν × Name)) (r : ℕ) :
  (st.change n name e f log).coroutine r =
    (st.coroutine r).map fun c => { c with task := (f r).getD c.task }
  := rfl

/-- A coroutine, before and after a step. -/
theorem coroutine_of_change (h : (st.change n name e f log).coroutine r = some c) :
  ∃ c₀, st.coroutine r = some c₀ ∧ c = { c₀ with task := (f r).getD c₀.task }
  := by
  rw [coroutine_change] at h
  obtain ⟨c₀, hc₀, rfl⟩ := Option.map_eq_some_iff.mp h
  use c₀, hc₀

theorem At.unique {t : Task} (h : At g st n name r t c) (hd : st.coroutine r = some d)
    (htarget : d.target g = some target) :
  d = c ∧ d.node = n ∧ target.name = name
  := by
  obtain rfl := Option.some.inj (hd.symm.trans h.coroutine)
  obtain ⟨func, hfunc⟩ := h.target
  obtain rfl := Option.some.inj (htarget.symm.trans hfunc)
  exact ⟨rfl, h.node, rfl⟩

/-- A coroutine at the entry goes on. -/
theorem At.goesOn {name' : Name} {t t' : Task} (h : At g st m name' r t c) (hf : f r = some t') :
  ∃ c', At g (st.change n name e f log) m name' r t' c'
  := by
  refine ⟨{ c with task := t' }, ?_, h.node, h.target, rfl⟩
  rw [coroutine_change, h.coroutine, hf]
  rfl

/-- A coroutine stays as it is. -/
theorem At.stays {name' : Name} {t : Task} (h : At g st m name' r t c) (hf : f r = none) :
  At g (st.change n name e f log) m name' r t c
  := by
  refine ⟨?_, h.node, h.target, h.task⟩
  rw [coroutine_change, h.coroutine, hf]
  rfl

/-- Coroutines at other entries stay as they are. -/
theorem Changes.elsewhere {name' : Name} {t : Task} (hchanges : Changes g st busy n name e f log)
    (h : At g st m name' r t c) (hne : ¬(m = n ∧ name' = name)) :
  f r = none
  := by
  cases hf : f r with
  | none => rfl
  | some t' =>
      obtain ⟨c', t₀, hat⟩ := hchanges.here r t' hf
      obtain ⟨func, hfunc⟩ := h.target
      obtain ⟨rfl, hnode, hname⟩ := hat.unique h.coroutine hfunc
      apply absurd _ hne
      use h.node.symm.trans hnode

/-- What has been issued stays so. -/
theorem Issued.change {name' : Name} (hchanges : Changes g st busy n name e f log)
    (h : Issued g st m name') :
  Issued g (st.change n name e f log) m name'
  := by
  obtain hmem | ⟨q, d, target, hd, hasked, hcommand, hnode, htarget, rfl⟩ := h
  · left
    apply hchanges.subset _ hmem
  · cases hf : f q with
    | none =>
        right
        use q, d, target
        rw [coroutine_change, hd, hf]
        use rfl
    | some t =>
        left
        obtain ⟨c, t', hat⟩ := hchanges.here q t hf
        obtain ⟨rfl, rfl, rfl⟩ := hat.unique hd htarget
        rw [← hnode]
        apply hchanges.begun q t d hf ⟨hd, rfl, hat.target, hasked⟩ hcommand
        rw [hnode, home_home]

/-- The result of a service stays. -/
theorem Changes.result {name' : Name} (hchanges : Changes g st busy n name e f log)
    (h : ¬(st.service m name').isOpen) :
  (st.change n name e f log).service m name' = st.service m name'
  := by
  by_cases hsame : m = n ∧ name' = name
  · obtain ⟨rfl, rfl⟩ := hsame
    rw [service_change_self]
    apply hchanges.opened.resolve_left h
  · rw [service_change_of_ne hsame]

theorem Changes.gives {name' : Name} (hchanges : Changes g st busy n name e f log)
    (h : (st.service m name').Gives a) :
  ((st.change n name e f log).service m name').Gives a
  := by
  rw [hchanges.result]
  · apply h
  · intro hopen
    apply Entry.not_gives hopen h

theorem Changes.number {name' : Name} {h : ℕ} (hchanges : Changes g st busy n name e f log)
    (hh : st.service m name' = .number h) :
  (st.change n name e f log).service m name' = .number h
  := by
  rw [hchanges.result, hh]
  rw [hh]
  apply id

/-- A coroutine after a step has been left as it was, or has gone on at the entry. -/
theorem Changes.coroutine_cases (hchanges : Changes g st busy n name e f log)
    (hc : (st.change n name e f log).coroutine r = some c) (htarget : c.target g = some target) :
  f r = none ∧ st.coroutine r = some c ∨
    ∃ t₀ c₀, f r = some c.task ∧ At g st n name r t₀ c₀ ∧ c₀.command = c.command ∧ n = c.node ∧ name = target.name
  := by
  obtain ⟨c₀, hc₀, rfl⟩ := coroutine_of_change hc
  cases hf : f r with
  | none =>
      left
      use rfl
      rw [hc₀]
      rfl
  | some t =>
      right
      obtain ⟨c', t₀, hat⟩ := hchanges.here r t hf
      obtain ⟨rfl, hnode, hname⟩ := hat.unique hc₀ htarget
      use t₀, c₀, rfl, hat, rfl, hnode.symm, hname.symm

/-- A coroutine that goes on at the entry, or stays there. -/
theorem Changes.at_entry {t : Task} (hchanges : Changes g st busy n name e f log)
    (h : f r = some t ∨ f r = none ∧ ∃ c, At g st n name r t c) :
  ∃ c, At g (st.change n name e f log) n name r t c
  := by
  obtain hf | ⟨hf, c, hat⟩ := h
  · obtain ⟨c, t₀, hat⟩ := hchanges.here r t hf
    apply hat.goesOn hf
  · exact ⟨c, hat.stays hf⟩

/-- What has been launched is still known to have been. -/
theorem Changes.launched_iff (hgood : Good g st busy) (hchanges : Changes g st busy n name e f log) (m : ν)
    (name' : Name) :
  (m, name') ∈ log ↔ m = home g m name' ∧ ((st.change n name e f log).service m name').started
  := by
  by_cases hsame : m = n ∧ name' = name
  · obtain ⟨rfl, rfl⟩ := hsame
    rw [service_change_self]
    apply hchanges.launched
  · rw [service_change_of_ne hsame, ← hgood.launched]
    constructor
    · intro hmem
      apply hchanges.others _ hmem
      rintro ⟨⟩
      apply hsame ⟨rfl, rfl⟩
    · apply hchanges.subset

/-- The managers go on agreeing. -/
theorem Good.change (hgood : Good g st busy) (hchanges : Changes g st busy n name e f log) :
  Good g (st.change n name e f log) none
  where
  fresh r hr := by
    rw [coroutine_change, hgood.fresh r hr]
    rfl
  nodup := hchanges.nodup
  launched := hchanges.launched_iff hgood
  away m name' hm := by
    by_cases hsame : m = n ∧ name' = name
    · obtain ⟨rfl, rfl⟩ := hsame
      rw [service_change_self]
      obtain hopen | ⟨h, rfl, hh⟩ := hchanges.away hm
      · apply Or.inl hopen
      · right
        use h, rfl
        apply hchanges.number hh
    · rw [service_change_of_ne hsame]
      obtain hopen | ⟨h, hm', hh⟩ := hgood.away m name' hm
      · apply Or.inl hopen
      · right
        use h, hm'
        apply hchanges.number hh
  owner m name' r cos hr := by
    by_cases hsame : m = n ∧ name' = name
    · obtain ⟨rfl, rfl⟩ := hsame
      rw [service_change_self] at hr
      apply hchanges.at_entry
      apply (hchanges.owner r cos hr).imp_right
      rintro ⟨hf, cos', hold⟩
      use hf
      apply hgood.owner m name' r cos' hold
    · rw [service_change_of_ne hsame] at hr
      obtain ⟨c, hat⟩ := hgood.owner m name' r cos hr
      exact ⟨c, hat.stays (hchanges.elsewhere hat hsame)⟩
  listed m name' launch cos hentry r hr := by
    by_cases hsame : m = n ∧ name' = name
    · obtain ⟨rfl, rfl⟩ := hsame
      rw [service_change_self] at hentry
      apply hchanges.at_entry
      apply (hchanges.listed launch cos hentry r hr).imp_right
      rintro ⟨hf, launch', cos', hold, hr'⟩
      use hf
      apply hgood.listed m name' launch' cos' hold r hr'
    · rw [service_change_of_ne hsame] at hentry
      obtain ⟨c, hat⟩ := hgood.listed m name' launch cos hentry r hr
      exact ⟨c, hat.stays (hchanges.elsewhere hat hsame)⟩
  owned r c target hc htarget htask := by
    obtain ⟨hf, hold⟩ | ⟨t₀, c₀, hf, hat, -, rfl, rfl⟩ := hchanges.coroutine_cases hc htarget
    · obtain ⟨cos, hentry⟩ := hgood.owned r c target hold htarget htask
      by_cases hsame : c.node = n ∧ target.name = name
      · obtain ⟨rfl, rfl⟩ := hsame
        rw [service_change_self]
        apply hchanges.owned r cos hentry hf
      · rw [service_change_of_ne hsame]
        use cos
    · rw [service_change_self]
      apply hchanges.runs r c.task hf htask
  answered r c target a hc htarget htask := by
    obtain ⟨hf, hold⟩ | ⟨t₀, c₀, hf, hat, -, rfl, rfl⟩ := hchanges.coroutine_cases hc htarget
    · apply hchanges.gives
      apply hgood.answered r c target a hold htarget htask
    · rw [htask] at hf
      obtain ⟨hhome, hgives⟩ | ⟨haway, hgives⟩ := hchanges.answered r a hf
      · rw [← hhome, service_change_self]
        apply hgives
      · rw [home_of_away haway]
        apply hchanges.gives hgives
  calls q d r hd hcaller := by
    obtain ⟨d, hold, rfl⟩ := coroutine_of_change hd
    obtain ⟨hnode, name', func, func', c, htarget, hglobal, hc, haway, htarget'⟩ :=
      hgood.calls q d r hold hcaller
    use hnode, name', func, func', { c with task := (f r).getD c.task }, htarget, hglobal
    rw [coroutine_change, hc]
    use rfl, haway, htarget'
  asked q d hd hasked _ := by
    obtain ⟨d, hold, rfl⟩ := coroutine_of_change hd
    cases hf : f q with
    | none =>
        rw [hf] at hasked
        apply hgood.asked q d hold hasked
        intro hbusy
        apply hchanges.busy q hbusy hf
    | some t =>
        rw [hf] at hasked
        obtain rfl : t = .asked := hasked
        apply absurd hf (hchanges.asked q)
  admitted r c hc := by
    obtain ⟨c, hold, rfl⟩ := coroutine_of_change hc
    apply hgood.admitted r c hold
  issued r c target hc htarget hlaunches hpending := by
    obtain ⟨-, hold⟩ | ⟨t₀, c₀, hf, hat, hcommand, rfl, rfl⟩ := hchanges.coroutine_cases hc htarget
    · apply Issued.change hchanges
      apply hgood.issued r c target hold htarget hlaunches hpending
    · rw [← hcommand] at hlaunches
      obtain hissued | ⟨hmem, hhome⟩ := hchanges.issued r c.task t₀ c₀ hf hat hlaunches hpending
      · apply Issued.change hchanges hissued
      · left
        rw [← hhome]
        apply hmem

/-! ### A coroutine at a time -/

/-- One coroutine goes on. -/
def only (r : ℕ) (t : Task) (r' : ℕ) : Option Task :=
  if r' = r then some t else none

theorem only_eq_some {r' : ℕ} {t t' : Task} :
  only r t r' = some t' ↔ r' = r ∧ t = t'
  := by
  unfold only
  split_ifs with h
  · rw [Option.some.injEq]
    exact ⟨fun ht => ⟨h, ht⟩, fun ht => ht.2⟩
  · exact ⟨(nomatch ·), fun hr => absurd hr.1 h⟩

theorem only_eq_none {r' : ℕ} {t : Task} :
  only r t r' = none ↔ r' ≠ r
  := by
  unfold only
  split_ifs with h
  · exact ⟨(nomatch ·), fun hne => absurd h hne⟩
  · exact ⟨fun _ => h, fun _ => rfl⟩

/-- The coroutine that has set `launch`. -/
def Entry.launch : Entry → Option ℕ
  | .table launch _ => launch
  | _ => none

/-- The list of an entry. -/
def Entry.cos : Entry → List ℕ
  | .table _ cos => cos
  | _ => []

theorem isOpen_table (launch : Option ℕ) (cos : List ℕ) :
  (Entry.table launch cos).isOpen
  := trivial

theorem started_table (r : ℕ) (cos : List ℕ) :
  (Entry.table (some r) cos).started
  := trivial

theorem started_of_isOpen (he : e.isOpen) :
  e.started ↔ e.launch ≠ none
  := by
  cases e with
  | nil => exact ⟨fun h => h.elim, fun h => absurd rfl h⟩
  | table launch cos =>
      cases launch with
      | none => exact ⟨fun h => h.elim, fun h => absurd rfl h⟩
      | some r => exact ⟨fun _ => nofun, fun _ => trivial⟩
  | number h => exact he.elim
  | string e => exact he.elim

theorem entry_of_launch (h : e.launch = some r) :
  e = .table (some r) e.cos
  := by
  cases e with
  | table launch cos =>
      obtain rfl : launch = some r := h
      rfl
  | _ => cases h

theorem entry_of_mem (h : r ∈ e.cos) :
  e = .table e.launch e.cos
  := by
  cases e with
  | table launch cos => rfl
  | _ => cases h

/-- A coroutine that has not begun has not set `launch`. -/
theorem Good.launch_ne (hgood : Good g st busy) (hat : At g st n name r .asked c) {r' : ℕ}
    (hold : (st.service n name).launch = some r') :
  r' ≠ r
  := by
  rintro rfl
  obtain ⟨c', hat'⟩ := hgood.owner n name r' _ (entry_of_launch hold)
  obtain rfl := Option.some.inj (hat'.coroutine.symm.trans hat.coroutine)
  have htask := hat.task.symm.trans hat'.task
  unfold ServiceMgr.runs at htask
  split_ifs at htask

/-- Nor does it wait. -/
theorem Good.waiting_ne (hgood : Good g st busy) (hat : At g st n name r .asked c) {r' : ℕ}
    (hold : r' ∈ (st.service n name).cos) :
  r' ≠ r
  := by
  rintro rfl
  obtain ⟨c', hat'⟩ := hgood.listed n name _ _ (entry_of_mem hold) r' hold
  obtain rfl := Option.some.inj (hat'.coroutine.symm.trans hat.coroutine)
  cases hat.task.symm.trans hat'.task

/-- A coroutine that has not begun is the only one that goes on. -/
theorem Changes.single {t : Task} (hgood : Good g st busy) (hat : At g st n name r .asked c)
    (hbusy : ∀ r' ∈ busy, r' = r) (ht : t ≠ .asked)
    (hopened : (st.service n name).isOpen ∨ e = st.service n name)
    (hlog : log = st.launched ∧ (n = home g n name → (e.started ↔ (st.service n name).started)) ∨
      log = st.launched ++ [(n, name)] ∧ n = home g n name ∧ ¬(st.service n name).started ∧ e.started)
    (haway : e.isOpen ∨ e = st.service n name)
    (howner : ∀ r', e.launch = some r' →
      r' = r ∧ t = ServiceMgr.runs g n name ∨ (st.service n name).launch = some r')
    (hlisted : ∀ r' ∈ e.cos, r' = r ∧ t = .waiting ∨ r' ∈ (st.service n name).cos)
    (howned : ∀ r', (st.service n name).launch = some r' → e.launch = some r')
    (hruns : t = .launching ∨ t = .calling → e.launch = some r)
    (hanswered : ∀ a, t = .answered a → e = st.service n name ∧ e.Gives a)
    (hbegun : c.command = .LAUNCH → n = home g n name → e.started)
    (hissued : c.command.launches = true → t.pending → Issued g st n name ∨ n = home g n name ∧ e.started) :
  Changes g st busy n name e (only r t) log
  := by
  have hlaunched : (n, name) ∈ log ↔ n = home g n name ∧ e.started := by
    obtain ⟨rfl, hstarted⟩ | ⟨rfl, hhome, -, hstarted⟩ := hlog
    · rw [hgood.launched]
      constructor
      · rintro ⟨hhome, h⟩
        use hhome, (hstarted hhome).mpr h
      · rintro ⟨hhome, h⟩
        use hhome, (hstarted hhome).mp h
    · use fun _ => ⟨hhome, hstarted⟩
      intro _
      apply List.mem_append_right _ (List.mem_singleton_self _)
  constructor
  · apply hopened
  · intro r' t' h
    obtain ⟨rfl, rfl⟩ := only_eq_some.mp h
    exact ⟨c, _, hat⟩
  · intro r' hr'
    obtain rfl := hbusy r' hr'
    intro hnone
    apply only_eq_none.mp hnone rfl
  · intro p hp
    obtain ⟨rfl, -⟩ | ⟨rfl, -⟩ := hlog
    · apply hp
    · apply List.mem_append_left _ hp
  · intro p hp hne
    obtain ⟨rfl, -⟩ | ⟨rfl, -⟩ := hlog
    · apply hp
    · apply (List.mem_append.mp hp).resolve_right
      rw [List.mem_singleton]
      apply hne
  · obtain ⟨rfl, -⟩ | ⟨rfl, -, hnot, -⟩ := hlog
    · apply hgood.nodup
    · rw [← List.concat_eq_append]
      apply hgood.nodup.concat
      rw [hgood.launched]
      intro hmem
      apply hnot hmem.2
  · apply hlaunched
  · intro hn
    obtain hopen | rfl := haway
    · apply Or.inl hopen
    · apply hgood.away n name hn
  · rintro r' cos rfl
    obtain ⟨rfl, rfl⟩ | hold := howner r' rfl
    · left
      rw [only_eq_some]
      exact ⟨rfl, rfl⟩
    · right
      rw [only_eq_none]
      exact ⟨hgood.launch_ne hat hold, _, entry_of_launch hold⟩
  · rintro launch cos rfl r' hr'
    obtain ⟨rfl, rfl⟩ | hold := hlisted r' hr'
    · left
      rw [only_eq_some]
      exact ⟨rfl, rfl⟩
    · right
      rw [only_eq_none]
      exact ⟨hgood.waiting_ne hat hold, _, _, entry_of_mem hold, hold⟩
  · intro r' cos hold _
    have hlaunch : (st.service n name).launch = some r' := by rw [hold]; rfl
    exact ⟨_, entry_of_launch (howned r' hlaunch)⟩
  · intro r' h
    apply ht (only_eq_some.mp h).2
  · intro r' t' h hrun
    obtain ⟨rfl, rfl⟩ := only_eq_some.mp h
    exact ⟨_, entry_of_launch (hruns hrun)⟩
  · intro r' a h
    obtain ⟨rfl, rfl⟩ := only_eq_some.mp h
    obtain ⟨rfl, hgives⟩ := hanswered a rfl
    by_cases hhome : n = home g n name
    · apply Or.inl ⟨hhome, hgives⟩
    · right
      use hhome
      obtain hopen | ⟨h, hold, hh⟩ := hgood.away n name hhome
      · apply absurd hgives (Entry.not_gives hopen)
      · rw [hold] at hgives
        rw [hh]
        apply hgives
  · intro r' t' c' h hat' hcommand hhome
    obtain ⟨rfl, rfl⟩ := only_eq_some.mp h
    obtain rfl := Option.some.inj (hat'.coroutine.symm.trans hat.coroutine)
    rw [hlaunched]
    use hhome, hbegun hcommand hhome
  · intro r' t' t₀ c' h hat' hlaunches hpending
    obtain ⟨rfl, rfl⟩ := only_eq_some.mp h
    obtain rfl := Option.some.inj (hat'.coroutine.symm.trans hat.coroutine)
    obtain hold | ⟨hhome, hstarted⟩ := hissued hlaunches hpending
    · apply Or.inl hold
    · right
      rw [hlaunched]
      use ⟨hhome, hstarted⟩

/-! ### Requests -/

variable {t : Task}

/-- A request is answered by what is there. -/
theorem Good.answer (hgood : Good g st busy) (hat : At g st n name r .asked c)
    (hbusy : ∀ r' ∈ busy, r' = r) (hgives : (st.service n name).Gives a) :
  Good g (st.become r (.answered a)) none
  := by
  have hnot : ¬(st.service n name).isOpen := fun hopen => Entry.not_gives hopen hgives
  have hstate : st.become r (.answered a) =
      st.change n name (st.service n name) (only r (.answered a)) st.launched := by
    unfold State.change State.set
    rw [Function.update_eq_self, Function.update_eq_self]
    rfl
  rw [hstate]
  apply hgood.change
  apply Changes.single (t := .answered a) hgood hat hbusy nofun (.inr rfl) (.inl ⟨rfl, fun _ => Iff.rfl⟩)
    (.inr rfl)
  · intro r' hr'
    apply Or.inr hr'
  · intro r' hr'
    apply Or.inr hr'
  · intro r' hr'
    apply hr'
  · rintro (h | h)
    · cases h
    · cases h
  · intro a' ha
    obtain rfl := Task.answered.inj ha
    use rfl
  · intro _ _
    cases hentry : st.service n name with
    | nil =>
        rw [hentry] at hnot
        apply absurd trivial hnot
    | table launch cos =>
        rw [hentry] at hnot
        apply absurd trivial hnot
    | number h => trivial
    | string e => trivial
  · intro _ hpending
    apply hpending.elim

/-- A request waits. -/
theorem Good.wait (hgood : Good g st busy) (hat : At g st n name r .asked c)
    (hbusy : ∀ r' ∈ busy, r' = r) (hopen : (st.service n name).isOpen)
    (hstarted : c.command.launches = true → (st.service n name).started ∧
      (n ≠ home g n name → Issued g st n name)) :
  Good g ((st.set n name (.table (st.service n name).launch ((st.service n name).cos ++ [r]))).become r
    .waiting) none
  := by
  have hlaunches : c.command = .LAUNCH → c.command.launches = true := by
    intro h
    rw [h]
    rfl
  have hsame : (Entry.table (st.service n name).launch ((st.service n name).cos ++ [r])).started ↔
      (st.service n name).started := by
    rw [started_of_isOpen hopen]
    apply started_of_isOpen (isOpen_table _ _)
  apply Good.change (f := only r .waiting) hgood
  apply Changes.single (t := .waiting) hgood hat hbusy nofun (.inl hopen) (.inl ⟨rfl, fun _ => hsame⟩)
    (.inl (isOpen_table _ _))
  · intro r' hr'
    apply Or.inr hr'
  · intro r' hr'
    obtain hr' | hr' := List.mem_append.mp hr'
    · apply Or.inr hr'
    · left
      use List.mem_singleton.mp hr'
  · intro r' hr'
    apply hr'
  · rintro (h | h)
    · cases h
    · cases h
  · intro a ha
    cases ha
  · intro hcommand _
    rw [hsame]
    apply (hstarted (hlaunches hcommand)).1
  · intro hlaunch _
    obtain ⟨hstarted, hissued⟩ := hstarted hlaunch
    by_cases hhome : n = home g n name
    · right
      rw [hsame]
      use hhome
    · apply Or.inl (hissued hhome)

/-- A service is launched. -/
theorem Good.launch (hgood : Good g st busy) (hat : At g st n name r .asked c)
    (hbusy : ∀ r' ∈ busy, r' = r) (hopen : (st.service n name).isOpen)
    (hnone : (st.service n name).launch = none) (hhome : n = home g n name) :
  Good g { (st.set n name (.table (some r) (st.service n name).cos)).become r .launching with
    launched := st.launched ++ [(n, name)] } none
  := by
  have hnot : ¬(st.service n name).started := by
    rw [started_of_isOpen hopen, hnone]
    apply not_not_intro rfl
  apply Good.change (f := only r .launching) hgood
  apply Changes.single (t := .launching) hgood hat hbusy nofun (.inl hopen)
    (.inr ⟨rfl, hhome, hnot, started_table _ _⟩) (.inl (isOpen_table _ _))
  · intro r' hr'
    obtain rfl := Option.some.inj hr'
    left
    use rfl
    apply (if_pos hhome).symm
  · intro r' hr'
    apply Or.inr hr'
  · intro r' hr'
    rw [hnone] at hr'
    cases hr'
  · intro _
    rfl
  · intro a ha
    cases ha
  · intro _ _
    trivial
  · intro _ _
    right
    use hhome
    trivial

/-- A request is passed on to the standalone manager. -/
theorem Good.call (hgood : Good g st busy) (hat : At g st n name r .asked c)
    (hbusy : ∀ r' ∈ busy, r' = r) (hopen : (st.service n name).isOpen)
    (hnone : (st.service n name).launch = none) (haway : n ≠ home g n name)
    (hissued : c.command.launches = true → Issued g st n name) :
  Good g ((st.set n name (.table (some r) (st.service n name).cos)).become r .calling) none
  := by
  apply Good.change (f := only r .calling) hgood
  apply Changes.single (t := .calling) hgood hat hbusy nofun (.inl hopen)
    (.inl ⟨rfl, fun hhome => absurd hhome haway⟩) (.inl (isOpen_table _ _))
  · intro r' hr'
    obtain rfl := Option.some.inj hr'
    left
    use rfl
    apply (if_neg haway).symm
  · intro r' hr'
    apply Or.inr hr'
  · intro r' hr'
    rw [hnone] at hr'
    cases hr'
  · intro _
    rfl
  · intro a ha
    cases ha
  · intro _ hhome
    apply absurd hhome haway
  · intro hlaunches _
    apply Or.inl (hissued hlaunches)

/-! ### New coroutines -/

variable {busy' : Option ℕ}

omit [DecidableEq ν] in
theorem coroutine_add_self (st : State ν) (c : Coroutine ν) :
  (st.add c).coroutine st.next = some c
  := Function.update_self _ _ _

theorem coroutine_add (hgood : Good g st busy) (hd : st.coroutine r = some d) (c : Coroutine ν) :
  (st.add c).coroutine r = some d
  := by
  have hne : r ≠ st.next := by
    rintro rfl
    cases (hgood.fresh _ (Nat.le_refl _)).symm.trans hd
  exact (Function.update_of_ne hne _ _).trans hd

omit [DecidableEq ν] in
theorem coroutine_of_add (hd : (st.add c).coroutine r = some d) :
  r = st.next ∧ d = c ∨ st.coroutine r = some d
  := by
  rcases eq_or_ne r st.next with rfl | hne
  · left
    use rfl
    exact Option.some.inj (hd.symm.trans (coroutine_add_self st c))
  · right
    exact (Function.update_of_ne hne _ _).symm.trans hd

theorem At.add (hgood : Good g st busy) (hat : At g st n name r t d) (c : Coroutine ν) :
  At g (st.add c) n name r t d
  := ⟨coroutine_add hgood hat.coroutine c, hat.node, hat.target, hat.task⟩

theorem Issued.add (hgood : Good g st busy) (h : Issued g st n name) (c : Coroutine ν) :
  Issued g (st.add c) n name
  := by
  obtain hmem | ⟨q, d, target, hd, hasked⟩ := h
  · apply Or.inl hmem
  · right
    use q, d, target, coroutine_add hgood hd c

theorem Good.add (hgood : Good g st busy) (hasked : c.task = .asked)
    (hadmitted : ∃ target, c.target g = some target) (hcalls : ∀ r, c.caller = some r → Calls g st c r)
    (hbusy : ∀ r, busy = some r → busy' = some r) (hnew : c.caller = none → busy' = some st.next) :
  Good g (st.add c) busy'
  := by
  constructor
  · intro r hr
    exact (Function.update_of_ne (Nat.ne_of_gt hr) _ _).trans (hgood.fresh r (Nat.le_of_succ_le hr))
  · apply hgood.nodup
  · apply hgood.launched
  · apply hgood.away
  · intro n name r cos hr
    obtain ⟨d, hat⟩ := hgood.owner n name r cos hr
    exact ⟨d, hat.add hgood c⟩
  · intro n name launch cos hentry r hr
    obtain ⟨d, hat⟩ := hgood.listed n name launch cos hentry r hr
    exact ⟨d, hat.add hgood c⟩
  · intro r d target hd htarget htask
    obtain ⟨rfl, rfl⟩ | hd := coroutine_of_add hd
    · rw [hasked] at htask
      obtain htask | htask := htask
      · cases htask
      · cases htask
    · apply hgood.owned r d target hd htarget htask
  · intro r d target a hd htarget htask
    obtain ⟨rfl, rfl⟩ | hd := coroutine_of_add hd
    · cases hasked.symm.trans htask
    · apply hgood.answered r d target a hd htarget htask
  · intro q d r hd hcaller
    have hcalls' : Calls g st d r := by
      obtain ⟨rfl, rfl⟩ | hd := coroutine_of_add hd
      · apply hcalls r hcaller
      · apply hgood.calls q d r hd hcaller
    obtain ⟨hnode, name, func, func', c', htarget, hglobal, hc', haway⟩ := hcalls'
    use hnode, name, func, func', c', htarget, hglobal, coroutine_add hgood hc' c
  · intro q d hd htask hne
    obtain ⟨rfl, rfl⟩ | hd := coroutine_of_add hd
    · intro hnone
      apply hne (hnew hnone)
    · apply hgood.asked q d hd htask
      intro hq
      apply hne (hbusy q hq)
  · intro r d hd
    obtain ⟨rfl, rfl⟩ | hd := coroutine_of_add hd
    · apply hadmitted
    · apply hgood.admitted r d hd
  · intro r d target hd htarget hlaunches hpending
    obtain ⟨rfl, rfl⟩ | hd := coroutine_of_add hd
    · rw [hasked] at hpending
      apply hpending.elim
    · apply Issued.add hgood
      apply hgood.issued r d target hd htarget hlaunches hpending

/-! ### Steps -/

theorem waitfor_of_isOpen (hopen : (st.service n target.name).isOpen) (r : ℕ) :
  waitfor g st r n target =
    enter g st r n target (st.service n target.name).launch (st.service n target.name).cos
  := by
  unfold waitfor
  cases hentry : st.service n target.name with
  | nil => rfl
  | table launch cos => rfl
  | number h =>
      rw [hentry] at hopen
      apply hopen.elim
  | string e =>
      rw [hentry] at hopen
      apply hopen.elim

theorem enter_of_none {launch : Option ℕ} (hfunc : target.func = none) (st : State ν) (r : ℕ) (n : ν)
    (cos : List ℕ) :
  enter g st r n target launch cos =
    (st.set n target.name (.table launch (cos ++ [r]))).become r .waiting
  := by
  unfold enter
  rw [hfunc]
  cases launch with
  | none => rfl
  | some r' => rfl

/-- Without a coroutine that has set `launch`, a request to launch is served at the node of the name, or passed
on. -/
theorem Passed.glaunch {command : Command} (h : Passed g st n command name)
    (hopen : (st.service n name).isOpen) (hnone : (st.service n name).launch = none)
    (haway : n ≠ home g n name) (hlaunches : command.launches = true) :
  command = .GLAUNCH
  := by
  have hpassed := h haway hlaunches
  cases hentry : st.service n name with
  | nil =>
      rw [hentry] at hpassed
      apply hpassed
  | table launch cos =>
      rw [hentry] at hpassed hnone
      obtain rfl : launch = none := hnone
      apply hpassed
  | number h =>
      rw [hentry] at hopen
      apply hopen.elim
  | string e =>
      rw [hentry] at hopen
      apply hopen.elim

/-- A request to launch that waits is one of a launch that has been issued or is on its way. -/
theorem Passed.started {command : Command} (h : Passed g st n command name)
    (hopen : (st.service n name).isOpen) {r' : ℕ} (hsome : (st.service n name).launch = some r')
    (hlaunches : command.launches = true) :
  (st.service n name).started ∧ (n ≠ home g n name → Issued g st n name)
  := by
  constructor
  · rw [started_of_isOpen hopen, hsome]
    apply Option.some_ne_none
  · intro haway
    have hpassed := h haway hlaunches
    rw [entry_of_launch hsome] at hpassed
    apply hpassed

omit [DecidableEq ν] in
variable (st) in
/-- A new coroutine does not go on. -/
theorem become_add (hne : r ≠ st.next) (d : Coroutine ν) (t : Task) :
  (st.become r t).add d = (st.add d).become r t
  := by
  apply congrArg fun f => State.mk st.service (st.next + 1) f st.launched
  funext r'
  dsimp only [State.become, State.goOn, State.add]
  rcases eq_or_ne r' st.next with rfl | hne'
  · rw [Function.update_self, Function.update_self, Option.map_some, if_neg hne.symm]
    rfl
  · rw [Function.update_of_ne hne', Function.update_of_ne hne']

/-- A request is passed on as a call. -/
theorem Good.passOn (hgood : Good g st busy) (hat : At g st n name r .asked c)
    (hbusy : ∀ r' ∈ busy, r' = r) (hopen : (st.service n name).isOpen)
    (hnone : (st.service n name).launch = none) {launch : Bool} {global_name : Name} {subname : Option Name}
    {func : Option Func} (hnode : n ≠ g) (hcommand : c.command.launches = launch)
    (hglobal : name.head? = some sign)
    (hcall : cmd true global_name subname (if launch then .LAUNCH else .QUERY) = some ⟨name, func⟩) :
  Good g (request g (st.set n name (.table (some r) (st.service n name).cos)) r n name
    (.call launch global_name subname)) none
  := by
  let d : Coroutine ν := ⟨g, if launch then .LAUNCH else .QUERY, global_name, subname, some r, .asked⟩
  have htarget : d.target g = some ⟨name, func⟩ := by
    unfold Coroutine.target
    rw [decide_eq_true rfl]
    apply hcall
  have hne : r ≠ st.next := by
    rintro rfl
    cases (hgood.fresh _ (Nat.le_refl _)).symm.trans hat.coroutine
  have hstate : request g (st.set n name (.table (some r) (st.service n name).cos)) r n name
      (.call launch global_name subname) =
      ((st.add d).set n name (.table (some r) (st.service n name).cos)).become r .calling := by
    have hadd := become_add (st.set n name (.table (some r) (st.service n name).cos)) hne d .calling
    apply hadd
  have hadded : Good g (st.add d) busy := by
    apply hgood.add rfl ⟨_, htarget⟩ _ (fun _ => id) nofun
    intro r' hr'
    obtain rfl := Option.some.inj hr'
    obtain ⟨func', hfunc'⟩ := hat.target
    use rfl, name, func, func', c, htarget, hglobal, hat.coroutine
    rw [hat.node]
    use hnode, hfunc'
  rw [hstate]
  apply hadded.call (hat.add hgood d) hbusy hopen hnone
  · rw [home_of_global hglobal]
    apply hnode
  · intro hlaunches
    right
    use st.next, d, ⟨name, func⟩, coroutine_add_self st d, rfl
    rw [hcommand] at hlaunches
    rw [home_of_global hglobal]
    use if_pos hlaunches, rfl, htarget

/-- A manager gets a request. -/
theorem Good.receive (hgood : Good g st busy) (hc : st.coroutine r = some c) (hasked : c.task = .asked)
    (hbusy : ∀ r' ∈ busy, r' = r)
    (hpassed : ∀ target, c.target g = some target → Passed g st c.node c.command target.name) :
  Good g (receive g st r c) none
  := by
  obtain ⟨target, htarget⟩ := hgood.admitted r c hc
  have hat : At g st c.node target.name r .asked c := ⟨hc, rfl, ⟨target.func, htarget⟩, hasked⟩
  have hpassed := hpassed target htarget
  unfold ServiceMgr.receive
  rw [htarget]
  dsimp only
  by_cases hopen : (st.service c.node target.name).isOpen
  · rw [waitfor_of_isOpen hopen]
    cases hlaunch : (st.service c.node target.name).launch with
    | none =>
        cases serves htarget with
        | query hfunc hcommand =>
            have hwait := hgood.wait hat hbusy hopen fun hlaunches =>
              nomatch hcommand.symm.trans hlaunches
            rw [hlaunch] at hwait
            rw [enter_of_none hfunc]
            apply hwait
        | launch hfunc hrequest hcommand hnode =>
            unfold enter
            rw [hfunc]
            dsimp only
            rw [hrequest]
            apply hgood.launch hat hbusy hopen hlaunch
            obtain hnode | hcommand' := hnode
            · rw [hnode, home_self]
            · by_contra haway
              have hglaunch := hpassed.glaunch hopen hlaunch haway hcommand
              cases hcommand'.symm.trans hglaunch
        | call hfunc hnode hcommand hglobal hcall =>
            unfold enter
            rw [hfunc]
            apply hgood.passOn hat hbusy hopen hlaunch hnode hcommand hglobal hcall
    | some r' =>
        have henter : enter g st r c.node target (some r') (st.service c.node target.name).cos =
            (st.set c.node target.name (.table (some r') ((st.service c.node target.name).cos ++ [r]))).become
              r .waiting := by
          unfold enter
          rfl
        rw [henter, ← hlaunch]
        apply hgood.wait hat hbusy hopen
        apply hpassed.started hopen hlaunch
  · unfold waitfor
    cases hentry : st.service c.node target.name with
    | nil =>
        rw [hentry] at hopen
        apply absurd trivial hopen
    | table launch cos =>
        rw [hentry] at hopen
        apply absurd trivial hopen
    | number h =>
        apply hgood.answer hat hbusy
        rw [hentry]
        rfl
    | string e =>
        apply hgood.answer hat hbusy
        rw [hentry]
        exact ⟨_, rfl⟩

/-! ### Results -/

/-- An entry with a result. -/
def Entry.isResult : Entry → Prop
  | .number _ | .string _ => True
  | _ => False

theorem gives_result (he : e.isResult) :
  e.Gives e.result ∧ e.Gives e.found ∧ e.started
  := by
  cases e with
  | nil => exact he.elim
  | table launch cos => exact he.elim
  | number h => exact ⟨rfl, rfl, trivial⟩
  | string e => exact ⟨⟨_, rfl⟩, ⟨_, rfl⟩, trivial⟩

/-- The coroutines that go on with a result: the one that has launched or called, and those in the list. -/
def ended (r : ℕ) (cos : List ℕ) (e : Entry) (r' : ℕ) : Option Task :=
  if r' = r then some (.answered e.result)
  else if r' ∈ cos then some (.answered e.found) else none

theorem ended_eq_some {cos : List ℕ} {r' : ℕ} (h : ended r cos e r' = some t) :
  r' = r ∧ t = .answered e.result ∨ r' ∈ cos ∧ t = .answered e.found
  := by
  unfold ended at h
  split_ifs at h with hr hmem
  · apply Or.inl ⟨hr, (Option.some.inj h).symm⟩
  · apply Or.inr ⟨hmem, (Option.some.inj h).symm⟩

/-- The result of a launch or of a call. -/
theorem Good.finish (hgood : Good g st none) (hc : st.coroutine r = some c)
    (htask : c.task = .launching ∨ c.task = .calling) (htarget : c.target g = some target)
    (he : e.isResult)
    (haway : c.node ≠ home g c.node target.name → ∃ h, e = .number h ∧ st.service g target.name = .number h) :
  Good g (finish g st r c e) none
  := by
  obtain ⟨cos, hentry⟩ := hgood.owned r c target hc htarget htask
  obtain ⟨hresult, hfound, hstarted⟩ := gives_result he
  have hfinish : ServiceMgr.finish g st r c e =
      st.change c.node target.name e (ended r cos e) st.launched := by
    unfold ServiceMgr.finish
    rw [htarget]
    dsimp only
    rw [hentry]
    rfl
  -- where they were before
  have hwas {r' : ℕ} {t' : Task} (h : ended r cos e r' = some t') :
      ∃ c' t₀, At g st c.node target.name r' t₀ c' ∧ t₀ ≠ .asked := by
    obtain ⟨rfl, -⟩ | ⟨hmem, -⟩ := ended_eq_some h
    · refine ⟨c, c.task, ⟨hc, rfl, ⟨_, htarget⟩, rfl⟩, ?_⟩
      intro hasked
      obtain htask | htask := htask
      · cases hasked.symm.trans htask
      · cases hasked.symm.trans htask
    · obtain ⟨c', hat⟩ := hgood.listed _ _ _ _ hentry r' hmem
      exact ⟨c', _, hat, nofun⟩
  have hanswer {r' : ℕ} {t' : Task} (h : ended r cos e r' = some t') :
      ∃ a, t' = .answered a ∧ e.Gives a := by
    obtain ⟨-, rfl⟩ | ⟨-, rfl⟩ := ended_eq_some h
    · exact ⟨_, rfl, hresult⟩
    · exact ⟨_, rfl, hfound⟩
  rw [hfinish]
  apply hgood.change
  constructor
  · left
    rw [hentry]
    apply isOpen_table
  · intro r' t' h
    obtain ⟨c', t₀, hat, -⟩ := hwas h
    exact ⟨c', t₀, hat⟩
  · intro r' hr'
    cases hr'
  · intro p hp
    apply hp
  · intro p hp _
    apply hp
  · apply hgood.nodup
  · rw [hgood.launched, hentry]
    constructor
    · rintro ⟨hhome, -⟩
      use hhome
    · rintro ⟨hhome, -⟩
      use hhome
      trivial
  · intro hne
    apply Or.inr (haway hne)
  · rintro r' cos' rfl
    apply he.elim
  · rintro launch cos' rfl
    apply he.elim
  · intro r' cos' hold hnone
    rw [hentry] at hold
    obtain ⟨hr, -⟩ := Entry.table.inj hold
    obtain rfl := Option.some.inj hr
    unfold ended at hnone
    rw [if_pos rfl] at hnone
    cases hnone
  · intro r' h
    obtain ⟨a, ha, -⟩ := hanswer h
    cases ha
  · intro r' t' h hrun
    obtain ⟨a, rfl, -⟩ := hanswer h
    obtain hrun | hrun := hrun
    · cases hrun
    · cases hrun
  · intro r' a h
    obtain ⟨a', ha, hgives⟩ := hanswer h
    obtain rfl := Task.answered.inj ha
    by_cases hhome : c.node = home g c.node target.name
    · apply Or.inl ⟨hhome, hgives⟩
    · right
      use hhome
      obtain ⟨h, rfl, hh⟩ := haway hhome
      rw [hh]
      apply hgives
  · intro r' t' c' h hat
    obtain ⟨c₁, t₀, hat', hne⟩ := hwas h
    obtain rfl := Option.some.inj (hat'.coroutine.symm.trans hat.coroutine)
    apply absurd (hat'.task.symm.trans hat.task) hne
  · intro r' t' t₀ c' h _ _ hpending
    obtain ⟨a, rfl, -⟩ := hanswer h
    apply hpending.elim

end

/-! ### Runs -/

theorem good_of_init (h : (machine g).init st) :
  Good g st none
  := by
  obtain ⟨hservice, hnext, hcoroutine, hlaunched⟩ := h
  constructor
  · intro r _
    apply hcoroutine
  · rw [hlaunched]
    apply List.nodup_nil
  · intro n name
    rw [hlaunched, hservice]
    exact ⟨nofun, fun h => h.2.elim⟩
  · intro n name _
    left
    rw [hservice]
    trivial
  · intro n name r cos h
    cases (hservice n name).symm.trans h
  · intro n name launch cos h
    cases (hservice n name).symm.trans h
  · intro r c target hc
    cases (hcoroutine r).symm.trans hc
  · intro r c target a hc
    cases (hcoroutine r).symm.trans hc
  · intro q d r hd
    cases (hcoroutine q).symm.trans hd
  · intro q d hd
    cases (hcoroutine q).symm.trans hd
  · intro r c hc
    cases (hcoroutine r).symm.trans hc
  · intro r c target hc
    cases (hcoroutine r).symm.trans hc

/-- A coroutine that launches is at the node of the name. -/
theorem Good.home_of_launching (hgood : Good g st none) (hc : st.coroutine r = some c)
    (htask : c.task = .launching) (htarget : c.target g = some target) :
  c.node = home g c.node target.name
  := by
  obtain ⟨cos, hentry⟩ := hgood.owned r c target hc htarget (.inl htask)
  obtain ⟨c', hat⟩ := hgood.owner _ _ _ _ hentry
  obtain rfl := Option.some.inj (hat.coroutine.symm.trans hc)
  have hruns := hat.task.symm.trans htask
  unfold runs at hruns
  split_ifs at hruns with hhome
  apply hhome

theorem Good.step {l : Event ν} (hgood : Good g st none) (hadmitted : Admitted g l) (hheeded : Heeded g st l)
    (h : step g st l = some st') :
  Good g st' none
  := by
  cases l with
  | request n command name subname =>
      obtain rfl := Option.some.inj h
      have hadded : Good g (st.add ⟨n, command, name, subname, none, .asked⟩) (some st.next) := by
        apply hgood.add rfl
        · apply hadmitted
        · intro r hr
          cases hr
        · intro r hr
          cases hr
        · intro _
          rfl
      apply hadded.receive (coroutine_add_self _ _) rfl
      · intro r' hr'
        exact (Option.some.inj hr').symm
      · intro target htarget haway hlaunches
        have hpassed := hheeded target htarget haway hlaunches
        change (match st.service n target.name with
          | .nil | .table none _ => command = .GLAUNCH
          | .table (some _) _ => Issued g _ n target.name
          | _ => True)
        cases hentry : st.service n target.name with
        | table launch cos =>
            rw [hentry] at hpassed
            cases launch with
            | none => apply hpassed
            | some r' =>
                apply Issued.add hgood
                apply hpassed
        | nil =>
            rw [hentry] at hpassed
            apply hpassed
        | number h => trivial
        | string e => trivial
  | arrive r =>
      obtain ⟨c, hc, h⟩ := Option.bind_eq_some_iff.mp h
      split_ifs at h with hasked
      obtain rfl := Option.some.inj h
      apply hgood.receive hc hasked nofun
      intro target htarget haway
      obtain ⟨q, hq⟩ := Option.ne_none_iff_exists'.mp (hgood.asked r c hc hasked nofun)
      obtain ⟨hnode, -⟩ := hgood.calls r c q hc hq
      rw [hnode, home_self] at haway
      contradiction
  | launched r result =>
      obtain ⟨c, hc, h⟩ := Option.bind_eq_some_iff.mp h
      split_ifs at h with htask
      obtain rfl := Option.some.inj h
      obtain ⟨target, htarget⟩ := hgood.admitted r c hc
      apply hgood.finish hc (.inl htask) htarget
      · cases result with
        | ok h => trivial
        | error e => trivial
      · intro haway
        apply absurd (hgood.home_of_launching hc htask htarget) haway
  | reply q =>
      obtain ⟨d, hd, h⟩ := Option.bind_eq_some_iff.mp h
      obtain ⟨v, htask⟩ := hheeded d hd
      cases hcaller : d.caller with
      | none =>
          rw [htask, hcaller] at h
          cases h
      | some r =>
          rw [htask, hcaller] at h
          obtain ⟨c, hc, h⟩ := Option.bind_eq_some_iff.mp h
          split_ifs at h with hcalling
          obtain rfl := Option.some.inj h
          obtain ⟨hnode, name, func, func', c', htarget, hglobal, hc', haway, htarget'⟩ :=
            hgood.calls q d r hd hcaller
          obtain rfl := Option.some.inj (hc'.symm.trans hc)
          have hgives := hgood.answered q d _ _ hd htarget htask
          rw [home_of_global hglobal] at hgives
          have hresult : (Entry.number v).isResult := trivial
          apply hgood.finish hc (.inr hcalling) htarget' hresult
          intro _
          use v, rfl
          apply number_of_gives hgives

theorem agree_of_gives {a' : Answer} (h : e.Gives a) (h' : e.Gives a') :
  Agree a a'
  := by
  cases e with
  | nil => exact h.elim
  | table launch cos => exact h.elim
  | number n =>
      obtain rfl := h
      obtain rfl := h'
      rfl
  | string e =>
      obtain ⟨line, rfl⟩ := h
      obtain ⟨line', rfl⟩ := h'
      rfl

theorem Good.unique (hgood : Good g st none) :
  Unique g st
  := by
  constructor
  · apply hgood.nodup
  · intro n name hmem
    apply ((hgood.launched n name).mp hmem).1
  · intro r r' c c' target target' a a' hc hc' htarget htarget' hname hhome ha ha'
    have hgives := hgood.answered r c target a hc htarget ha
    have hgives' := hgood.answered r' c' target' a' hc' htarget' ha'
    rw [← hname, ← hhome] at hgives'
    apply agree_of_gives hgives hgives'
  · apply hgood.issued

/-- In every state reached by requests that are admitted and heeded, no service has been launched twice, all
answers to requests for a service agree, and where one to launch it waits, its launch has been issued or is on
its way. -/
theorem services_unique (h : (machine g).Reaches (fun st l => Admitted g l ∧ Heeded g st l) st) :
  Unique g st
  := by
  have hgood : Good g st none := by
    apply Machine.invariant (fun _ => good_of_init) _ h
    intro st l st' hgood hok hstep
    apply hgood.step hok.1 hok.2 hstep
  apply hgood.unique

theorem reaches_step {ok : State ν → Event ν → Prop} {l : Event ν} (h : (machine g).Reaches ok st)
    (hstep : step g st l = some st') (hok : ok st l) :
  (machine g).Reaches ok st'
  := h.step hok hstep

/-- The managers of two nodes, of which `0` is standalone, at the start. -/
def fresh : State ℕ where
  service _ _ := .nil
  next := 0
  coroutine _ := none
  launched := []

theorem reaches_fresh (ok : State ℕ → Event ℕ → Prop) :
  (machine 0).Reaches ok fresh
  := .init ⟨fun _ _ => rfl, rfl, fun _ => rfl, rfl⟩

/-- A service is launched for another node, and then asked for at the standalone one. -/
theorem services_unique_global :
  ∃ st : State ℕ, st.launched = [(0, [64, 102])] ∧
    (st.coroutine 0).map Coroutine.task = some (.answered (.handle 7)) ∧
    (st.coroutine 2).map Coroutine.task = some (.answered (.handle 7)) ∧ Unique 0 st
  := by
  have hs₁ := reaches_step (l := .request 1 .GLAUNCH [102] none)
    (reaches_fresh fun st l => Admitted 0 l ∧ Heeded 0 st l) rfl (by
      use ⟨_, rfl⟩
      intro target htarget _ _
      obtain rfl := Option.some.inj htarget
      rfl)
  have hs₂ := reaches_step (l := .arrive 1) hs₁ rfl ⟨trivial, trivial⟩
  have hs₃ := reaches_step (l := .launched 1 (.ok 7)) hs₂ rfl ⟨trivial, trivial⟩
  have hs₄ := reaches_step (l := .reply 1) hs₃ rfl (by
      use trivial
      intro d hd
      obtain rfl := Option.some.inj hd
      use 7
      rfl)
  have hs₅ := reaches_step (l := .request 0 .GLAUNCH [102] none) hs₄ rfl (by
      use ⟨_, rfl⟩
      intro target htarget haway
      rw [home_self] at haway
      contradiction)
  exact ⟨_, rfl, rfl, rfl, services_unique hs₅⟩

/-- A query of a global service is passed on; then a request to launch it waits for the answer. -/
theorem query_before_launch :
  ∃ st, (machine 0).Reaches (fun _ l => Admitted 0 l) st ∧ ¬Unique 0 st
  := by
  have hs₁ := reaches_step (l := .request 1 .GQUERY [102] none) (reaches_fresh fun _ l => Admitted 0 l) rfl
    ⟨_, rfl⟩
  have hs₂ := reaches_step (l := .request 1 .GLAUNCH [102] none) hs₁ rfl ⟨_, rfl⟩
  refine ⟨_, hs₂, fun hunique => ?_⟩
  obtain hmem | ⟨q, d, target, hd, hasked, hcommand, -⟩ := hunique.issued 2 _ _ rfl rfl rfl trivial
  · cases hmem
  · match q with
    | 0 =>
        obtain rfl := Option.some.inj hd
        cases hasked
    | 1 =>
        obtain rfl := Option.some.inj hd
        cases hcommand
    | 2 =>
        obtain rfl := Option.some.inj hd
        cases hasked
    | q + 3 => cases hd

end ServiceMgr

end Skynet
