import FWServer.Login.Registration

/-!
# A name is registered once

Any number of requests register the same account name at the same time.  At most one of them is
answered with success, and the cached record of the account and the one in redis have its password and
the user it has created, as long as no request comes to its insert with the account already cached,
nothing with another password or user is loaded over the account, and no service stores the default
record of another insert after the last update.
-/

open Lua DbCache Backend

namespace Login.Registration

/-! ### The requests over the services -/

/-- The requests over the services. -/
def registrations (json : Cjson) (name : Value) :
    Plant Script.interface Unit Backend.State (Request name) ℕ (Option Value) :=
  plant json fun j : Request name => onRegister j.fd j.protTab

section

variable {name : Value}

/-- The requests that have been answered with `isSuccess = 1`. -/
def answered (s : Scripts (Request name) (Option Value)) : List (Request name) :=
  (s.outputs.filter fun o => isSuccess o.2).map Prod.fst

/-- The requests that have created an account, and the users they have created. -/
def created (s : Scripts (Request name) (Option Value)) : List (Request name × Value) :=
  s.ended.filterMap fun e =>
    match e.2 with
    | .returned (some userId) => some (e.1, userId)
    | _ => none

/-- How many updates of the account have been sent. -/
def updatesSent (w : Backend.State) : ℕ :=
  w.sent.countP fun req => isUpdate req.cmd

/-- The last update of a registration has been sent and is not before a service any more. -/
def Stored (w : Backend.State) : Prop :=
  2 ≤ updatesSent w ∧ ∀ h, ∀ req ∈ load w h, isUpdate req.cmd = false

end

section

variable (name : Value)

/-- Nobody has called a service yet. -/
structure Started (s : Scripts (Request name) (Option Value)) : Prop where
  uncalled : Uncalled s
  apart : Apart name (s.process ())
  outputs : s.outputs = []
  ended : s.ended = []

/-- Once the account is cached, no request is still creating its user, and nothing with another
password or user is loaded over the account; and no service stores the default record of an insert
after the last update of a registration. -/
def Once (s : Scripts (Request name) (Option Value)) : Plant.Step (Request name) ℕ → Prop
  | .start _ => True
  | .event h => ∀ r text, s.network.running h = some r →
      r.request.cmd = .insert .account name → r.query = .hmset .account name.tostring text →
        ¬ Stored s.network
  | .wake n => ∀ t, s.waiting n = some t →
      match t.query with
      | .redis _ (.insert .user _) => ∀ ret, s.network.answers n = some (.ok ret) →
          account name (s.process ()) = none
      | .redis _ (.update .user _) => ∀ ret, s.network.answers n = some (.ok ret) →
          account name (s.process ()) = none
      | .redis _ (.query .account _) => ∀ ret, s.network.answers n = some (.ok ret) →
          ∀ rtab ∈ ret.tabs, rtab.get (dbtable .account).pkey = name →
            ∀ ref, account name (s.process ()) = some ref → Agree rtab ((s.process ()).deref ref)
      | _ => True

end

/-! ### What holds in every state -/

section

variable {name : Value}

/-- What a suspended request may have asked for, and before that. -/
def Asks (name : Value) (asked : List Script.Call) : Script.Call → Prop
  | .redis _ (.update .account _) => updates asked ≤ 1
  | .redis _ (.query .account _) => updates asked = 0
  | .redis _ (.insert .account key) => key = name ∧ updates asked = 0
  | .redis _ (.insert .user _) => updates asked = 0
  | .redis _ (.update .user _) => updates asked = 0
  | _ => False

/-- Only the owner has updated the account. -/
theorem Asks.updates_eq_zero {asked : List Script.Call} {q : Script.Call} (h : Asks name asked q)
    (hq : updatesAccount q = false) :
  updates asked = 0
  := by
  cases q with
  | onLoginUser fd userId b => exact h.elim
  | redis dest cmd =>
      cases cmd with
      | query tname key =>
          cases tname with
          | account => exact h
          | _ => exact h.elim
      | insert tname key =>
          cases tname with
          | account => exact h.2
          | user => exact h
          | _ => exact h.elim
      | update tname rectab =>
          cases tname with
          | account => cases hq
          | user => exact h
          | _ => exact h.elim
      | remove tname key => exact h.elim
      | closeAll => exact h.elim

/-- Other than the owner, only the insert of the name writes a record of the account table. -/
theorem Asks.insert_of_write {json : Cjson} {asked : List Script.Call} {h : ℕ} {cmd : Cmd}
    (hasks : Asks name asked (.redis h cmd)) (hother : isUpdate cmd = false) {v : Write}
    (hwrite : writeOf json cmd = some v) (haccount : v.tname = .account)
    (hname : name.truthy = true) :
  cmd = .insert .account name ∧ v.field = name.tostring
  := by
  cases cmd with
  | query tname key => cases hwrite
  | insert tname key =>
      rw [writeOf] at hwrite
      split at hwrite
      · cases hwrite
      · obtain rfl := Option.some.inj hwrite
        obtain rfl : tname = .account := haccount
        obtain ⟨rfl, -⟩ := hasks
        use rfl
        rw [Value.orElse_of_truthy hname]
  | update tname rectab =>
      rw [writeOf] at hwrite
      split at hwrite
      · obtain rfl := Option.some.inj hwrite
        obtain rfl : tname = .account := haccount
        cases hother
      · cases hwrite
  | remove tname key => exact hasks.elim
  | closeAll => exact hasks.elim

/-- A suspended request keeps its part of the contract when it is resumed. -/
def Bound (asked : List Script.Call) (t : Waiting Script.interface (Request name) (Option Value)) :
    Prop :=
  ∀ r s, (contract name).replies t.query r s →
    (t.resumed r).Obeys (contract name) (Ends name t.job) ⟨t.query :: asked, s, []⟩ s

/-- No request waits for an update of the account. -/
def Unowned (s : Scripts (Request name) (Option Value)) : Prop :=
  ∀ n t, s.waiting n = some t → updatesAccount t.query = false

/-- A request that is not waiting and has asked for `asked` owns the account. -/
structure Owns (asked : List Script.Call) (s : Scripts (Request name) (Option Value)) : Prop where
  unowned : Unowned s
  sent : updatesSent s.network = updates asked
  uncreated : created s = []

/-- The account, its owner and the request that has been answered with success. -/
structure Registered (json : Cjson) (s : Scripts (Request name) (Option Value)) : Prop where
  routed : Routed json s
  apart : Apart name (s.process ())
  waiting : ∀ n t, s.waiting n = some t → ∃ asked, Bound asked t ∧ Asks name asked t.query ∧
    (updatesAccount t.query = true → updatesSent s.network = updates (t.query :: asked))
  /-- The owner has sent the account as it is cached. -/
  owner : ∀ n t h rectab, s.waiting n = some t → t.query = .redis h (.update .account rectab) →
    created s = [] ∧ rectab.get (dbtable .account).pkey = name ∧
      ∃ ref, account name (s.process ()) = some ref ∧ Agree ((s.process ()).deref ref) rectab
  unique : ∀ n m t t', s.waiting n = some t → s.waiting m = some t' →
    updatesAccount t.query = true → updatesAccount t'.query = true → n = m
  uncached : account name (s.process ()) = none → updatesSent s.network = 0 ∧ created s = []
  creator : created s = [] ∨ ∃ j userId, created s = [(j, userId)] ∧ updatesSent s.network = 2 ∧
    Unowned s ∧
      ∃ ref, account name (s.process ()) = some ref ∧
        ((s.process ()).deref ref).get (.str "accountPwd") = j.password ∧
        ((s.process ()).deref ref).get (.str "userId") = userId
  creators : answered s = (created s).map Prod.fst
  stored : Stored s.network → ∃ rectab,
    (s.network.db .account).lookup name.tostring = some (json.encode rectab) ∧
      ∀ ref, account name (s.process ()) = some ref → Agree ((s.process ()).deref ref) rectab

end

/-! ### Stretches of a request -/

section Run

variable {json : Cjson} {name : Value} {s s₁ : Scripts (Request name) (Option Value)} {n : ℕ}

/-- The calls that update an account. -/
theorem eq_update_of_updatesAccount {q : Script.Call} (h : updatesAccount q = true) :
  ∃ redis rectab, q = .redis redis (.update .account rectab)
  := by
  cases q with
  | onLoginUser fd userId b => cases h
  | redis dest cmd =>
      cases cmd with
      | update tname rectab =>
          cases tname with
          | account => exact ⟨dest, rectab, rfl⟩
          | _ => cases h
      | _ => cases h

theorem updatesSent_issue (n : ℕ) (q : Script.Call) (w : Backend.State) :
  updatesSent (issue n q w) = updatesSent w + if updatesAccount q then 1 else 0
  := by
  cases q with
  | redis dest cmd =>
      change List.countP _ (_ :: w.sent) = _
      rw [List.countP_cons]
      rfl
  | onLoginUser fd userId b => rfl

theorem issue_db (n : ℕ) (q : Script.Call) (w : Backend.State) :
  (issue n q w).db = w.db
  := by
  cases q <;> rfl

/-- What is before a service stays before it. -/
theorem mem_load_issue (n : ℕ) (q : Script.Call) {w : Backend.State} {h : ℕ}
    {req : Backend.Request} (hreq : req ∈ load w h) :
  req ∈ load (issue n q w) h
  := by
  cases q with
  | redis dest cmd =>
      rw [load_issue]
      rcases eq_or_ne h dest with rfl | hne
      · rw [Function.update_self]
        exact List.mem_append_left _ hreq
      · rw [Function.update_of_ne hne]
        exact hreq
  | onLoginUser fd userId b => exact hreq

/-- The answers with success among the messages of a stretch are those of its request. -/
theorem answered_append (j : Request name) (out : List Script.Message)
    (rest : List (Request name × Script.Message)) :
  (((out.map fun o => (j, o)).reverse ++ rest).filter fun o => isSuccess o.2).map Prod.fst
    = List.replicate (out.filter isSuccess).length j
      ++ (rest.filter fun o => isSuccess o.2).map Prod.fst
  := by
  simp [List.filter_reverse, List.filter_map, Function.comp_def]

/-- A stretch that leaves the account as it is. -/
theorem Registered.mild (hs : Registered json s) (hapart : Apart name (s₁.process ()))
    (hmild : Mild name (s.process ()) (s₁.process ())) (hnetwork : s₁.network = s.network)
    (hwaiting : s₁.waiting = s.waiting) (hfresh : s₁.fresh = s.fresh)
    (hcreated : created s₁ = created s)
    (hanswered : answered s₁ = answered s) :
  Registered json s₁
  := by
  have hrouted := hs.routed.congr hnetwork hwaiting hfresh
  obtain ⟨process, network, waiting, fresh, outputs, ended⟩ := s₁
  dsimp only at hnetwork hwaiting hfresh
  subst hnetwork hwaiting hfresh
  constructor
  · exact hrouted
  · exact hapart
  · exact hs.waiting
  · intro m t h rectab ht hquery
    obtain ⟨hnone, hkey, ref, hrec, hagree⟩ := hs.owner m t h rectab ht hquery
    obtain ⟨ref', hrec', hagree'⟩ := hmild ref hrec
    exact ⟨hcreated.trans hnone, hkey, ref', hrec', hagree'.trans hagree⟩
  · exact hs.unique
  · intro hnone
    rw [hcreated]
    apply hs.uncached
    by_contra hcached
    exact hmild.cached hcached hnone
  · rw [hcreated]
    rcases hs.creator with hnone | ⟨j, userId, hone, hsent, hfree, ref, hrec, hpwd, huserId⟩
    · exact .inl hnone
    · obtain ⟨ref', hrec', hagree⟩ := hmild ref hrec
      exact .inr ⟨j, userId, hone, hsent, hfree, ref', hrec', hagree.1.trans hpwd,
        hagree.2.trans huserId⟩
  · rw [hanswered, hcreated]
    exact hs.creators
  · intro hstored
    obtain ⟨rectab, htext, hagree⟩ := hs.stored hstored
    refine ⟨rectab, htext, ?_⟩
    intro ref' hrec'
    cases hrec : account name (s.process ()) with
    | none =>
        obtain ⟨hsent, -⟩ := hs.uncached hrec
        rw [Stored, hsent] at hstored
        exact absurd hstored.1 (by decide)
    | some ref =>
        obtain ⟨ref'', hrec'', hagree'⟩ := hmild ref hrec
        obtain rfl := Option.some.inj (hrec'.symm.trans hrec'')
        exact hagree'.trans (hagree ref hrec)

/-- After a call that is not an update of the account the owner is the same. -/
theorem Registered.call (hs : Registered json s) (hidle : s.waiting n = none)
    {t : Waiting Script.interface (Request name) (Option Value)} {asked : List Script.Call}
    (hbound : Bound asked t) (hasks : Asks name asked t.query)
    (hother : updatesAccount t.query = false)
    (hrouted : Routed json { s with
      waiting := Function.update s.waiting n (some t)
      network := issue n t.query s.network }) :
  Registered json { s with
    waiting := Function.update s.waiting n (some t)
    network := issue n t.query s.network }
  := by
  have hsent : updatesSent (issue n t.query s.network) = updatesSent s.network := by
    rw [updatesSent_issue, hother]
    rfl
  have hcases : ∀ m t', Function.update s.waiting n (some t) m = some t' →
      m = n ∧ t' = t ∨ s.waiting m = some t' := by
    intro m t' ht'
    rcases eq_or_ne m n with rfl | hm
    · rw [Function.update_self] at ht'
      exact .inl ⟨rfl, (Option.some.inj ht').symm⟩
    · rw [Function.update_of_ne hm] at ht'
      exact .inr ht'
  have howner : ∀ m t', Function.update s.waiting n (some t) m = some t' →
      updatesAccount t'.query = true → s.waiting m = some t' := by
    intro m t' ht' hupdates
    rcases hcases m t' ht' with ⟨-, rfl⟩ | ht'
    · cases hother.symm.trans hupdates
    · exact ht'
  constructor
  · exact hrouted
  · exact hs.apart
  · intro m t' ht'
    dsimp only
    rw [hsent]
    rcases hcases m t' ht' with ⟨-, rfl⟩ | ht'
    · exact ⟨asked, hbound, hasks, fun hupdates => nomatch hother.symm.trans hupdates⟩
    · exact hs.waiting m t' ht'
  · intro m t' h rectab ht' hquery
    apply hs.owner m t' h rectab (howner m t' ht' _) hquery
    rw [hquery]
    rfl
  · intro m m' t₁ t₂ ht₁ ht₂ h₁ h₂
    exact hs.unique m m' t₁ t₂ (howner m t₁ ht₁ h₁) (howner m' t₂ ht₂ h₂) h₁ h₂
  · intro hnone
    dsimp only
    rw [hsent]
    exact hs.uncached hnone
  · dsimp only
    rw [hsent]
    rcases hs.creator with hnone | ⟨j, userId, hone, htwo, hfree, hcached⟩
    · exact .inl hnone
    · refine .inr ⟨j, userId, hone, htwo, ?_, hcached⟩
      intro m t' ht'
      rcases hcases m t' ht' with ⟨-, rfl⟩ | ht'
      · exact hother
      · exact hfree m t' ht'
  · exact hs.creators
  · rintro ⟨htwo, hload⟩
    dsimp only at htwo hload
    rw [hsent] at htwo
    have hstored := hs.stored ⟨htwo, fun h req hreq => hload h req (mem_load_issue n t.query hreq)⟩
    dsimp only
    rw [issue_db]
    exact hstored

/-- Nobody owns the account before it is cached. -/
theorem Registered.owns_of_none (hs : Registered json s)
    (hnone : account name (s.process ()) = none) {asked : List Script.Call}
    (hasked : updates asked = 0) :
  Owns asked s
  := by
  obtain ⟨hsent, hcreated⟩ := hs.uncached hnone
  constructor
  · intro m t ht
    by_contra hupdates
    obtain ⟨h, rectab, hquery⟩ := eq_update_of_updatesAccount (Bool.of_not_eq_false hupdates)
    obtain ⟨-, -, ref, hrec, -⟩ := hs.owner m t h rectab ht hquery
    cases hnone.symm.trans hrec
  · rw [hsent, hasked]
  · exact hcreated

/-- After an update of the account by its owner. -/
theorem Registered.own (hs : Registered json s) {asked : List Script.Call}
    (hown : Owns asked s) (hasked : updates asked ≤ 1) {process : Unit → Script.State}
    {outputs : List (Request name × Script.Message)} (hapart : Apart name (process ()))
    (hanswered : (outputs.filter fun o => isSuccess o.2).map Prod.fst = answered s)
    {t : Waiting Script.interface (Request name) (Option Value)} {h : ℕ} {rectab : Table}
    (hquery : t.query = .redis h (.update .account rectab)) (hbound : Bound asked t)
    (hcached : ∃ ref, account name (process ()) = some ref ∧ (process ()).deref ref = rectab)
    (hrouted : Routed json { s with
      process := process
      outputs := outputs
      waiting := Function.update s.waiting n (some t)
      network := issue n t.query s.network }) :
  Registered json { s with
    process := process
    outputs := outputs
    waiting := Function.update s.waiting n (some t)
    network := issue n t.query s.network }
  := by
  have hupdates : updatesAccount t.query = true := by
    rw [hquery]
    rfl
  have hcases : ∀ m t', Function.update s.waiting n (some t) m = some t' →
      m = n ∧ t' = t ∨ s.waiting m = some t' ∧ updatesAccount t'.query = false := by
    intro m t' ht'
    rcases eq_or_ne m n with rfl | hm
    · rw [Function.update_self] at ht'
      exact .inl ⟨rfl, (Option.some.inj ht').symm⟩
    · rw [Function.update_of_ne hm] at ht'
      exact .inr ⟨ht', hown.unowned m t' ht'⟩
  obtain ⟨ref, hrec, hderef⟩ := hcached
  constructor
  · exact hrouted
  · exact hapart
  · intro m t' ht'
    rcases hcases m t' ht' with ⟨-, rfl⟩ | ⟨ht', hother⟩
    · refine ⟨asked, hbound, ?_, ?_⟩
      · rw [hquery]
        exact hasked
      · intro _
        dsimp only
        rw [updatesSent_issue, hown.sent, hupdates, if_pos rfl, hquery, updates_cons_update]
    · obtain ⟨asked', hbound', hasks', -⟩ := hs.waiting m t' ht'
      exact ⟨asked', hbound', hasks', fun hupdates' => nomatch hother.symm.trans hupdates'⟩
  · intro m t' h' rectab' ht' hquery'
    rcases hcases m t' ht' with ⟨-, rfl⟩ | ⟨-, hother⟩
    · obtain rfl : rectab = rectab' := by
        rw [hquery] at hquery'
        injection hquery' with _ hcmd
        injection hcmd
      refine ⟨hown.uncreated, ?_, ref, hrec, ?_⟩
      · rw [← hderef]
        exact (hapart.account ref hrec).2.1
      · rw [← hderef]
        exact ⟨rfl, rfl⟩
    · rw [hquery'] at hother
      cases hother
  · intro m m' t₁ t₂ ht₁ ht₂ h₁ h₂
    rcases hcases m t₁ ht₁ with ⟨rfl, -⟩ | ⟨-, hother⟩
    · rcases hcases m' t₂ ht₂ with ⟨rfl, -⟩ | ⟨-, hother⟩
      · rfl
      · cases hother.symm.trans h₂
    · cases hother.symm.trans h₁
  · intro hnone
    cases hnone.symm.trans hrec
  · exact .inl hown.uncreated
  · exact hanswered.trans hs.creators
  · rintro ⟨-, hload⟩
    have hreq : (⟨n, .update .account rectab⟩ : Backend.Request) ∈
        load (issue n t.query s.network) h := by
      rw [hquery, load_issue, Function.update_self]
      exact List.mem_append_right _ List.mem_cons_self
    cases hload h _ hreq

/-- The owner raises an error between its updates. -/
theorem Registered.abandon (hs : Registered json s) {asked : List Script.Call}
    (howns : Owns asked s) (hone : updates asked = 1) (hapart : Apart name (s₁.process ()))
    (hcached : account name (s₁.process ()) ≠ none) (hnetwork : s₁.network = s.network)
    (hwaiting : s₁.waiting = s.waiting) (hfresh : s₁.fresh = s.fresh)
    (hcreated : created s₁ = created s) (hanswered : answered s₁ = answered s) :
  Registered json s₁
  := by
  have hrouted := hs.routed.congr hnetwork hwaiting hfresh
  have hsent : updatesSent s₁.network = 1 := by rw [hnetwork, howns.sent, hone]
  constructor
  · exact hrouted
  · exact hapart
  · rw [hwaiting, hnetwork]
    exact hs.waiting
  · intro m t h rectab ht hquery
    rw [hwaiting] at ht
    have hother := howns.unowned m t ht
    rw [hquery] at hother
    cases hother
  · rw [hwaiting]
    exact hs.unique
  · exact fun hnone => absurd hnone hcached
  · exact .inl (hcreated.trans howns.uncreated)
  · rw [hanswered, hcreated]
    exact hs.creators
  · rintro ⟨htwo, -⟩
    rw [hsent] at htwo
    exact absurd htwo (by decide)

/-- The owner answers with success. -/
theorem Registered.succeed (hs : Registered json s) {asked : List Script.Call}
    (howns : Owns asked s) (htwo : updates asked = 2) (j : Request name) (userId : Value)
    (hcached : ∃ ref, account name (s.process ()) = some ref ∧
      ((s.process ()).deref ref).get (.str "accountPwd") = j.password ∧
      ((s.process ()).deref ref).get (.str "userId") = userId)
    {out : List Script.Message} (hone : (out.filter isSuccess).length = 1) :
  Registered json { s with
    outputs := (out.map fun o => (j, o)).reverse ++ s.outputs
    ended := (j, .returned (some userId)) :: s.ended }
  := by
  have hcreated : created { s with
      outputs := (out.map fun o => (j, o)).reverse ++ s.outputs
      ended := (j, .returned (some userId)) :: s.ended } = [(j, userId)] := by
    change (j, userId) :: created s = [(j, userId)]
    rw [howns.uncreated]
  have hnone : answered s = [] := by
    rw [hs.creators, howns.uncreated]
    rfl
  constructor
  · exact hs.routed.congr rfl rfl rfl
  · exact hs.apart
  · exact hs.waiting
  · intro m t h rectab ht hquery
    have hother := howns.unowned m t ht
    rw [hquery] at hother
    cases hother
  · exact hs.unique
  · obtain ⟨ref, hrec, -⟩ := hcached
    intro hnone
    cases hnone.symm.trans hrec
  · exact .inr ⟨j, userId, hcreated, howns.sent.trans htwo, howns.unowned, hcached⟩
  · rw [hcreated]
    change (((out.map fun o => (j, o)).reverse ++ s.outputs).filter fun o =>
      isSuccess o.2).map Prod.fst = [j]
    rw [answered_append, hone]
    change j :: answered s = [j]
    rw [hnone]
  · exact hs.stored

/-- Messages without the answer of success leave the requests that have been answered as they are. -/
theorem answered_of_silent (j : Request name) {out : List Script.Message} (h : Silent out) :
  (((out.map fun o => (j, o)).reverse ++ s.outputs).filter fun o => isSuccess o.2).map Prod.fst = answered s
  := by
  have hnone : out.filter isSuccess = [] := h
  rw [answered_append, hnone]
  rfl

/-- A stretch that leaves the account as it is and does not answer with success. -/
theorem Registered.turned (hs : Registered json s) (j : Request name) {p : Script.State} {out : List Script.Message}
    (hapart : Apart name p) (hmild : Mild name (s.process ()) p) (hsilent : Silent out) :
  Registered json { s with
    process := Function.update s.process () p
    outputs := (out.map fun o => (j, o)).reverse ++ s.outputs }
  := by
  apply hs.mild
  · dsimp only
    rwa [Function.update_self]
  · dsimp only
    rwa [Function.update_self]
  · rfl
  · rfl
  · rfl
  · rfl
  · exact answered_of_silent j hsilent

/-- A request returns. -/
theorem Registered.returned (hs : Registered json s) (j : Request name) {a : Option Value} {asked : List Script.Call}
    {p : Script.State} {out : List Script.Message}
    (howns : updates asked = 0 ∨ Owns asked s ∧ account name (s.process ()) ≠ none)
    (hends : Ends name j ⟨asked, s.process (), out⟩ a p) :
  Registered json { s with
    process := Function.update s.process () p
    outputs := (out.map fun o => (j, o)).reverse ++ s.outputs
    ended := (j, .returned a) :: s.ended }
  := by
  obtain ⟨hapart, hmild, hanswers⟩ := hends
  cases a with
  | none =>
      apply hs.mild
      · dsimp only
        rwa [Function.update_self]
      · dsimp only
        rwa [Function.update_self]
      · rfl
      · rfl
      · rfl
      · rfl
      · exact answered_of_silent j hanswers.1
  | some userId =>
      obtain ⟨hone, htwo, ref, hcached⟩ := hanswers
      rcases howns with hzero | ⟨howns, -⟩
      · cases hzero.symm.trans htwo
      · have hnothing : Silent [] := rfl
        have hmid : Registered json { s with process := Function.update s.process () p } :=
          hs.turned j hapart hmild hnothing
        have hself : Function.update s.process () p () = p := Function.update_self _ _ _
        rw [← hself] at hcached
        apply hmid.succeed _ htwo j userId ⟨ref, hcached⟩ hone
        exact ⟨howns.unowned, howns.sent, howns.uncreated⟩

/-- A request raises an error. -/
theorem Registered.raised (hs : Registered json s) (j : Request name) {e : String} {asked : List Script.Call}
    {p : Script.State} {out : List Script.Message}
    (howns : updates asked = 0 ∨ Owns asked s ∧ account name (s.process ()) ≠ none)
    (hraises : (contract name).raises ⟨asked, s.process (), out⟩ p) :
  Registered json { s with
    process := Function.update s.process () p
    outputs := (out.map fun o => (j, o)).reverse ++ s.outputs
    ended := (j, .raised e) :: s.ended }
  := by
  obtain ⟨hapart, hsilent, hkeeps, hmild⟩ := hraises
  rcases eq_or_ne (updates asked) 1 with hone | hne
  · rcases howns with hzero | ⟨howns, hcached⟩
    · cases hzero.symm.trans hone
    · apply hs.abandon howns hone
      · dsimp only
        rwa [Function.update_self]
      · dsimp only
        rw [Function.update_self]
        exact hkeeps hcached
      · rfl
      · rfl
      · rfl
      · rfl
      · exact answered_of_silent j hsilent
  · apply hs.mild
    · dsimp only
      rwa [Function.update_self]
    · dsimp only
      rw [Function.update_self]
      exact hmild hne
    · rfl
    · rfl
    · rfl
    · rfl
    · exact answered_of_silent j hsilent

/-- A request calls a service, and waits. -/
theorem Registered.waited (hs : Registered json s) (hidle : s.waiting n = none) {j : Request name}
    {asked : List Script.Call} {p : Script.State} {out : List Script.Message} {q : Script.Call}
    {k : Except String Answer → Script (Option Value)}
    (howns : updates asked = 0 ∨ Owns asked s ∧ account name (s.process ()) ≠ none)
    (hcalls : (contract name).calls ⟨asked, s.process (), out⟩ q p) (hbound : Bound asked ⟨j, q, k⟩)
    (hrouted : Routed json { s with
      process := Function.update s.process () p
      outputs := (out.map fun o => (j, o)).reverse ++ s.outputs
      waiting := Function.update s.waiting n (some ⟨j, q, k⟩)
      network := issue n q s.network }) :
  Registered json { s with
    process := Function.update s.process () p
    outputs := (out.map fun o => (j, o)).reverse ++ s.outputs
    waiting := Function.update s.waiting n (some ⟨j, q, k⟩)
    network := issue n q s.network }
  := by
  obtain ⟨hapart, hsilent, hcalls⟩ := hcalls
  have hother : updatesAccount q = false → Asks name asked q → Mild name (s.process ()) p →
      Registered json { s with
        process := Function.update s.process () p
        outputs := (out.map fun o => (j, o)).reverse ++ s.outputs
        waiting := Function.update s.waiting n (some ⟨j, q, k⟩)
        network := issue n q s.network } := by
    intro hq hasks hmild
    exact (hs.turned j hapart hmild hsilent).call hidle hbound hasks hq hrouted
  cases q with
  | onLoginUser fd userId b => exact hcalls.elim
  | redis h cmd =>
      cases cmd with
      | query tname key =>
          cases tname with
          | account => exact hother rfl hcalls.2.1 hcalls.2.2
          | _ => exact hcalls.elim
      | insert tname key =>
          cases tname with
          | account => exact hother rfl ⟨hcalls.1, hcalls.2.1⟩ hcalls.2.2
          | user => exact hother rfl hcalls.1 hcalls.2
          | _ => exact hcalls.elim
      | update tname rectab =>
          cases tname with
          | account =>
              obtain ⟨⟨ref, hrec, hderef⟩, hstage⟩ := hcalls
              have hself : Function.update s.process () p () = p := Function.update_self _ _ _
              rw [← hself] at hapart hrec hderef
              have howns' : Owns asked s ∧ updates asked ≤ 1 := by
                rcases hstage with ⟨hzero, hnone⟩ | hone
                · exact ⟨hs.owns_of_none hnone hzero, Nat.le_succ_of_le (Nat.le_of_eq hzero)⟩
                · rcases howns with hzero | ⟨howns, -⟩
                  · cases hzero.symm.trans hone
                  · exact ⟨howns, Nat.le_of_eq hone⟩
              obtain ⟨howns, hone⟩ := howns'
              exact hs.own howns hone hapart (answered_of_silent j hsilent) rfl hbound ⟨ref, hrec, hderef⟩ hrouted
          | user => exact hother rfl hcalls.1 hcalls.2
          | _ => exact hcalls.elim
      | remove tname key => exact hcalls.elim
      | closeAll => exact hcalls.elim

/-- A stretch of a request that keeps its part of the contract. -/
theorem Registered.run (hs : Registered json s) (hn : n < s.fresh) (hidle : s.waiting n = none)
    (j : Request name) {c : Script (Option Value)} {asked : List Script.Call}
    (howns : updates asked = 0 ∨ Owns asked s ∧ account name (s.process ()) ≠ none)
    (hc : c.Obeys (contract name) (Ends name j) ⟨asked, s.process (), []⟩ (s.process ())) :
  Registered json ((registrations json name).run n j c s)
  := by
  have hrouted : Routed json ((registrations json name).run n j c s) :=
    hs.routed.run hn hidle j c
  have hended : Function.update s.waiting n none = s.waiting := by
    rw [← hidle, Function.update_eq_self]
  rw [Coroutine.obeys_iff_resume] at hc
  dsimp only at hc
  let x := c.resume (s.process ())
  obtain ⟨a, hhalt, hrun⟩ | ⟨e, hhalt, hrun⟩ | ⟨q, k, hhalt, hrun⟩ :=
    (registrations json name).run_cases n j c s
  · have hhalt' : x.halt = .returned a := hhalt
    rw [hhalt'] at hc
    rw [hrun, hended]
    exact hs.returned j howns hc
  · have hhalt' : x.halt = .raised e := hhalt
    rw [hhalt'] at hc
    rw [hrun, hended]
    exact hs.raised j howns hc
  · have hhalt' : x.halt = .waiting q k := hhalt
    rw [hhalt'] at hc
    obtain ⟨hcalls, hbound⟩ := hc
    rw [hrun] at hrouted ⊢
    exact hs.waited hidle howns hcalls hbound hrouted

end Run

/-! ### Steps -/

section Step

variable {json : Cjson} {name : Value} {s s' : Scripts (Request name) (Option Value)} {n : ℕ}

/-- Taking an answer and the request that waits for it away. -/
theorem Registered.collect (hs : Registered json s) {r : Except String Answer}
    {w : Backend.State} (hw : Backend.collect n s.network = some (r, w)) :
  Registered json { s with
    network := w
    waiting := Function.update s.waiting n none }
  := by
  have hrouted := hs.routed.collect hw
  obtain ⟨r', -, heq⟩ := Option.map_eq_some_iff.mp hw
  cases heq
  have hold : ∀ m t, Function.update s.waiting n none m = some t → s.waiting m = some t := by
    intro m t ht
    rcases eq_or_ne m n with rfl | hm
    · rw [Function.update_self] at ht
      cases ht
    · rwa [Function.update_of_ne hm] at ht
  constructor
  · exact hrouted
  · exact hs.apart
  · exact fun m t ht => hs.waiting m t (hold m t ht)
  · exact fun m t h rectab ht => hs.owner m t h rectab (hold m t ht)
  · exact fun m m' t t' ht ht' => hs.unique m m' t t' (hold m t ht) (hold m' t' ht')
  · exact hs.uncached
  · rcases hs.creator with hnone | ⟨j, userId, hone, htwo, hfree, hcached⟩
    · exact .inl hnone
    · exact .inr ⟨j, userId, hone, htwo, fun m t ht => hfree m t (hold m t ht), hcached⟩
  · exact hs.creators
  · exact hs.stored

/-- What a request that is resumed may expect. -/
theorem Registered.replies (hs : Registered json s) (honce : Once name s (.wake n))
    {t : Waiting Script.interface (Request name) (Option Value)} (ht : s.waiting n = some t)
    {r : Except String Answer} (hr : s.network.answers n = some r) :
  (contract name).replies t.query r (s.process ())
  := by
  obtain ⟨asked, -, hasks, -⟩ := hs.waiting n t ht
  have honce := honce t ht
  obtain ⟨⟨t', h, cmd, ht', hquery, hreplies⟩, -⟩ := hs.routed.answered n r hr
  obtain rfl := Option.some.inj (ht.symm.trans ht')
  rw [hquery] at hasks honce ⊢
  refine ⟨hs.apart, ?_⟩
  cases cmd with
  | query tname key =>
      cases tname with
      | account =>
          rintro ret rfl
          exact honce ret hr
      | _ => trivial
  | insert tname key =>
      cases tname with
      | account =>
          rintro hname ret rfl
          obtain ⟨rfl, -⟩ := hasks
          have hval := hreplies hname
          cases hval
          rfl
      | user =>
          rintro ret rfl
          exact honce ret hr
      | _ => trivial
  | update tname rectab =>
      cases tname with
      | account => exact (hs.owner n t h rectab ht hquery).2.2
      | user =>
          rintro ret rfl
          exact honce ret hr
      | _ => trivial
  | remove tname key => trivial
  | closeAll => trivial

/-- Resuming a request. -/
theorem Registered.wake (hs : Registered json s) (honce : Once name s (.wake n))
    (hstep : (registrations json name).step s (.wake n) = some s') :
  Registered json s'
  := by
  obtain ⟨j, h, -⟩ | ⟨h, w, h, -⟩ | ⟨n', t, r, w, h, ht, hw, rfl⟩ :=
    (registrations json name).step_cases hstep
  · cases h
  · cases h
  · obtain rfl := Plant.Step.wake.inj h
    rw [← (registrations json name).run_clear]
    have hr : s.network.answers n = some r := by
      obtain ⟨r', hr, heq⟩ := Option.map_eq_some_iff.mp hw
      cases heq
      exact hr
    obtain ⟨asked, hbound, hasks, hsent⟩ := hs.waiting n t ht
    apply (hs.collect hw).run (hs.routed.fresh n t ht) (Function.update_self _ _ _)
    · cases hupdates : updatesAccount t.query with
      | false =>
          left
          have hother : ¬ updatesAccount t.query = true := Bool.eq_false_iff.mp hupdates
          rw [updates, List.countP_cons_of_neg hother]
          exact hasks.updates_eq_zero hupdates
      | true =>
          right
          obtain ⟨h, rectab, hquery⟩ := eq_update_of_updatesAccount hupdates
          obtain ⟨hcreated, -, ref, hrec, -⟩ := hs.owner n t h rectab ht hquery
          obtain ⟨r', -, heq⟩ := Option.map_eq_some_iff.mp hw
          cases heq
          constructor
          · constructor
            · intro m t' ht'
              rcases eq_or_ne m n with rfl | hm
              · cases (Function.update_self (f := s.waiting) m none).symm.trans ht'
              · by_contra hupdates'
                have ht'' : s.waiting m = some t' := (Function.update_of_ne hm _ _).symm.trans ht'
                exact hm (hs.unique m n t' t ht'' ht (Bool.of_not_eq_false hupdates') hupdates)
            · exact hsent hupdates
            · exact hcreated
          · intro hnone
            cases hnone.symm.trans hrec
    · exact hbound r _ (hs.replies honce ht hr)

/-- The account table has no counter. -/
theorem same_account {db db' : Redis} (h : DbRedis.SameRecords db db') (field : String) :
  (db' .account).lookup field = (db .account).lookup field
  := by
  apply h
  intro hauto
  cases hauto

/-- Once the account has been updated it is cached. -/
theorem Registered.truthy_of_stored (hs : Registered json s) (h : Stored s.network) :
  name.truthy = true
  := by
  cases hrec : account name (s.process ()) with
  | some ref => exact record_truthy hrec
  | none =>
      obtain ⟨hsent, -⟩ := hs.uncached hrec
      rw [Stored, hsent] at h
      exact absurd h.1 (by decide)

/-- A turn of a service. -/
theorem Registered.event (hs : Registered json s) {h : ℕ} (honce : Once name s (.event h))
    {w : Backend.State} (hturn : react json h s.network = some w) :
  Registered json { s with network := w }
  := by
  have hrouted := hs.routed.event hturn
  obtain ⟨-, hsent, hfinish⟩ := turn_cases hs.routed.performing hturn
  have hcount : updatesSent w = updatesSent s.network := by rw [updatesSent, hsent, updatesSent]
  have hstored : Stored w → ∃ rectab,
      (w.db .account).lookup name.tostring = some (json.encode rectab) ∧
        ∀ ref, account name (s.process ()) = some ref → Agree ((s.process ()).deref ref) rectab := by
    rintro ⟨htwo, hload⟩
    rw [hcount] at htwo
    rcases hfinish with hcontinued | ⟨req, hfinished⟩
    · rw [hcontinued.load] at hload
      obtain ⟨rectab, htext, hagree⟩ := hs.stored ⟨htwo, hload⟩
      exact ⟨rectab, (same_account hcontinued.records _).trans htext, hagree⟩
    · obtain ⟨t, ht, hquery⟩ := hs.routed.loaded h req hfinished.first
      cases hupdates : isUpdate req.cmd with
      | true =>
          have howner : updatesAccount t.query = true := by
            rw [hquery]
            exact hupdates
          obtain ⟨h', rectab, hquery'⟩ := eq_update_of_updatesAccount howner
          obtain ⟨-, hkey, ref, hrec, hagree⟩ := hs.owner _ t h' rectab ht hquery'
          have hcmd : req.cmd = .update .account rectab :=
            (Script.Call.redis.inj (hquery.symm.trans hquery')).2
          have hwrite : writeOf json req.cmd
              = some ⟨.account, name.tostring, json.encode rectab⟩ := by
            rw [hcmd, writeOf, hkey, if_pos (record_truthy hrec)]
          obtain ⟨-, hdb⟩ := hfinished.stored _ hwrite
          refine ⟨rectab, ?_, ?_⟩
          · rw [hdb, Function.update_self, AList.lookup_insert]
          · intro ref' hrec'
            obtain rfl := Option.some.inj (hrec.symm.trans hrec')
            exact hagree
      | false =>
          have hbefore : Stored s.network := by
            use htwo
            intro h' req' hreq'
            rcases hfinished.eq_or_mem hreq' with ⟨-, rfl⟩ | hreq'
            · exact hupdates
            · exact hload h' req' hreq'
          obtain ⟨rectab, htext, hagree⟩ := hs.stored hbefore
          refine ⟨rectab, ?_, hagree⟩
          rw [← htext]
          cases hwrite : writeOf json req.cmd with
          | none => exact same_account (hfinished.records hwrite) _
          | some v =>
              obtain ⟨⟨r, hrunning, rfl, hstore⟩, hdb⟩ := hfinished.stored v hwrite
              rw [hdb, Function.update_of_ne]
              intro haccount
              obtain ⟨asked, -, hasks, -⟩ := hs.waiting _ t ht
              rw [hquery] at hasks
              obtain ⟨hcmd, hfield⟩ := hasks.insert_of_write hupdates hwrite haccount.symm
                (hs.truthy_of_stored hbefore)
              apply honce r v.text hrunning hcmd _ hbefore
              rw [hstore, hfield, ← haccount]
  constructor
  · exact hrouted
  · exact hs.apart
  · dsimp only
    rw [hcount]
    exact hs.waiting
  · exact hs.owner
  · exact hs.unique
  · dsimp only
    rw [hcount]
    exact hs.uncached
  · dsimp only
    rw [hcount]
    exact hs.creator
  · exact hs.creators
  · exact hstored

/-- Starting a request. -/
theorem Registered.start (hs : Registered json s) (j : Request name) :
  Registered json ((registrations json name).run s.fresh j (onRegister j.fd j.protTab)
    { s with fresh := s.fresh + 1 })
  := by
  have hnext : Registered json { s with fresh := s.fresh + 1 } := by
    constructor
    · exact hs.routed.next
    · exact hs.apart
    · exact hs.waiting
    · exact hs.owner
    · exact hs.unique
    · exact hs.uncached
    · exact hs.creator
    · exact hs.creators
    · exact hs.stored
  exact hnext.run (Nat.lt_succ_self _) hs.routed.idle j (.inl rfl) (onRegister_obeys j hs.apart)

/-- Nothing has happened yet. -/
theorem Started.registered (hs : Started name s) :
  Registered json s
  := by
  have hsent : updatesSent s.network = 0 := by
    rw [updatesSent, hs.uncalled.sent]
    rfl
  have hcreated : created s = [] := by
    rw [created, hs.ended]
    rfl
  constructor
  · exact hs.uncalled.routed
  · exact hs.apart
  · intro n t ht
    cases (hs.uncalled.waiting n).symm.trans ht
  · intro n t h rectab ht
    cases (hs.uncalled.waiting n).symm.trans ht
  · intro n m t t' ht
    cases (hs.uncalled.waiting n).symm.trans ht
  · exact fun _ => ⟨hsent, hcreated⟩
  · exact .inl hcreated
  · rw [answered, hs.outputs, hcreated]
    rfl
  · rintro ⟨htwo, -⟩
    rw [hsent] at htwo
    exact absurd htwo (by decide)

/-- In every state reached while the requests come in time. -/
theorem registered_of_reaches
    (h : ((registrations json name).machine (Started name)).Reaches (Once name) s) :
  Registered json s
  := by
  apply Machine.invariant (P := Registered json) _ _ h
  · exact fun s hs => Started.registered hs
  · intro s a s' hs honce hstep
    cases a with
    | start j =>
        obtain rfl := Option.some.inj hstep
        exact hs.start j
    | event h =>
        obtain ⟨w, hw, rfl⟩ := Option.map_eq_some_iff.mp hstep
        exact hs.event honce hw
    | wake n => exact hs.wake honce hstep

/-- After a registration its last update has been stored. -/
theorem Registered.stored_of_created (hs : Registered json s) (htwo : updatesSent s.network = 2)
    (hfree : Unowned s) :
  Stored s.network
  := by
  constructor
  · rw [htwo]
  · intro h req hreq
    obtain ⟨t, ht, hquery⟩ := hs.routed.loaded h req hreq
    have hother := hfree _ t ht
    rwa [hquery] at hother

end Step

/-! ### Registering a name -/

/-- While no request comes to its insert with the account already cached, at most one is answered
with success, and from then on the account has its password and the user it has created, in the cache
and in redis. -/
theorem registered_once (json : Cjson) {name : Value} {s : Scripts (Request name) (Option Value)}
    (h : ((registrations json name).machine (Started name)).Reaches (Once name) s) :
  (answered s).length ≤ 1 ∧
  ∀ j ∈ answered s, ∃ userId, (j, userId) ∈ created s ∧
    (∃ ref, account name (s.process ()) = some ref ∧
      ((s.process ()).deref ref).get (.str "accountPwd") = j.password ∧
      ((s.process ()).deref ref).get (.str "userId") = userId) ∧
    ∃ rectab, (s.network.db .account).lookup name.tostring = some (json.encode rectab) ∧
      rectab.get (.str "accountPwd") = j.password ∧ rectab.get (.str "userId") = userId
  := by
  have hs := registered_of_reaches h
  rw [hs.creators]
  rcases hs.creator with hnone | ⟨j, userId, hone, htwo, hfree, ref, hrec, hpwd, huserId⟩
  · rw [hnone]
    use Nat.zero_le 1
    intro j hj
    cases hj
  · rw [hone]
    use le_rfl
    intro j' hj'
    obtain rfl := List.mem_singleton.mp hj'
    refine ⟨userId, List.mem_cons_self, ⟨ref, hrec, hpwd, huserId⟩, ?_⟩
    obtain ⟨rectab, htext, hagree⟩ := hs.stored (hs.stored_of_created htwo hfree)
    obtain ⟨hpwd', huserId'⟩ := hagree ref hrec
    exact ⟨rectab, htext, hpwd'.symm.trans hpwd, huserId'.symm.trans huserId⟩

/-! ### Two requests for one name -/

/-- A JSON library for records with a password and a user id. -/
def accountJson : Cjson where
  encode r := "\x7b\"accountPwd\":\"" ++ (r.get (.str "accountPwd")).tostring ++ "\",\"userId\":" ++
    (r.get (.str "userId")).tostring ++ "\x7d"
  decode _ := .error "Expected value but found T_END"

/-- The services are connected, a thousand user ids are taken, and no account is registered. -/
def unregistered : Scripts (Request (.str "nobody")) (Option Value) where
  process _ := Script.initial ⟨[10, 11, 12, 13], Script.fourServices_ne_nil, Script.fourServices_nodup⟩
  network :=
    { conn := fun _ => ⟨fun _ => true⟩
      inbox := fun _ => []
      running := fun _ => none
      db := Function.update (fun _ => ∅) .user (AList.insert DbRedis.autoincrKey "1000" ∅)
      answers := fun _ => none
      sent := [] }
  waiting _ := none
  fresh := 0
  outputs := []
  ended := []

/-- A request to register the name `nobody`. -/
def nobody (fd : ℕ) (accPwd : String) : Request (.str "nobody") where
  fd := fd
  protTab := .ofFields [("accName", .str "nobody"), ("accPwd", .str accPwd)]
  named := rfl

theorem unregistered_started :
  Started (.str "nobody") unregistered
  := by
  constructor
  · exact ⟨fun _ => rfl, fun _ => rfl, fun _ => rfl, rfl⟩
  · constructor
    · intro key ref hrec
      cases hrec
    · intro ref hrec
      cases hrec
  · rfl
  · rfl

/-- The service `h` carries a command of the request `n` out, and the request is resumed. -/
def answer (n h : ℕ) : List (Plant.Step (Request (.str "nobody")) ℕ) :=
  [.event h, .event h, .wake n]

/-- Redis counts up for a user. -/
theorem event_hincrby {s : Scripts (Request (.str "nobody")) (Option Value)} {h : ℕ}
    {r : Running} (c : ℤ) (hr : s.network.running h = some r)
    (hq : r.query = .hincrby .user DbRedis.autoincrKey 1)
    (hc : ((s.network.db .user).lookup DbRedis.autoincrKey).getD "0" = c.repr)
    (hrange : Redis.inRange (c + 1) = true) :
  ((registrations accountJson (.str "nobody")).machine (Started (.str "nobody"))).step s (.event h)
      = some { s with
    network := advance h r.request (r.resumed (.ok (.int (c + 1)))) { s.network with
      db := Function.update s.network.db .user
        ((s.network.db .user).insert DbRedis.autoincrKey (c + 1).repr) } }
  := by
  have hreact : react accountJson h s.network = _ := react_hincrby c hr hq hc hrange
  change (react accountJson h s.network).map _ = _
  rw [hreact]
  rfl

/-- Before the second update of the account the services may take any turn. -/
theorem once_event {name : Value} {s : Scripts (Request name) (Option Value)} {h : ℕ}
    (hfew : updatesSent s.network < 2) :
  Once name s (.event h)
  := fun _ _ _ _ _ hstored => absurd hstored.1 (Nat.not_le_of_lt hfew)

/-- Before the account is cached any request may be resumed. -/
theorem once_wake {name : Value} {s : Scripts (Request name) (Option Value)} {n : ℕ}
    (hnone : account name (s.process ()) = none) :
  Once name s (.wake n)
  := by
  intro t _
  dsimp only
  split
  · exact fun _ _ => hnone
  · exact fun _ _ => hnone
  · intro ret _ rtab _ _ ref hrec
    cases hnone.symm.trans hrec
  · trivial

theorem guarded_answer {s s₁ s₂ s₃ : Scripts (Request (.str "nobody")) (Option Value)} {n h : ℕ}
    {ls : List (Plant.Step (Request (.str "nobody")) ℕ)} :
  let M := (registrations accountJson (.str "nobody")).machine (Started (.str "nobody"))
  M.step s (.event h) = some s₁ → M.step s₁ (.event h) = some s₂ →
    M.step s₂ (.wake n) = some s₃ → Once _ s (.event h) → Once _ s₁ (.event h) →
      Once _ s₂ (.wake n) → M.Guarded (Once _) s₃ ls → M.Guarded (Once _) s (answer n h ++ ls)
  := fun h₁ h₂ h₃ hok₁ hok₂ hok₃ hls => .cons h₁ hok₁ (.cons h₂ hok₂ (.cons h₃ hok₃ hls))

/-- A name is registered, and then asked for again. -/
theorem registered_once_nobody :
  let M := (registrations accountJson (.str "nobody")).machine (Started (.str "nobody"))
  ∃ s, M.exec unregistered ([.start (nobody 1 "secret")] ++ answer 0 12 ++ answer 0 10 ++
      answer 0 10 ++ answer 0 11 ++ answer 0 12 ++ answer 0 12 ++ answer 0 10 ++
      [.start (nobody 2 "sesame")]) = some s ∧
    answered s = [nobody 1 "secret"] ∧ (answered s).length ≤ 1 ∧
    ∀ j ∈ answered s, ∃ userId, (j, userId) ∈ created s ∧
      (∃ ref, account (.str "nobody") (s.process ()) = some ref ∧
        ((s.process ()).deref ref).get (.str "accountPwd") = j.password ∧
        ((s.process ()).deref ref).get (.str "userId") = userId) ∧
      ∃ rectab, (s.network.db .account).lookup "nobody" = some (accountJson.encode rectab) ∧
        rectab.get (.str "accountPwd") = j.password ∧ rectab.get (.str "userId") = userId
  := by
  intro M
  have hexec : ∃ s, ((registrations accountJson (.str "nobody")).machine
      (Started (.str "nobody"))).exec unregistered (([.start (nobody 1 "secret")] ++ answer 0 12 ++
      [.event 10]) ++ .event 10 :: ([.wake 0] ++ answer 0 10 ++ answer 0 11 ++ answer 0 12 ++
      answer 0 12 ++ answer 0 10 ++ [.start (nobody 2 "sesame")])) = some s ∧
      answered s = [nobody 1 "secret"] := by
    constructor
    constructor
    · apply (Machine.exec_append rfl _).trans
      apply (Machine.exec_cons (event_hincrby 1000 rfl rfl rfl rfl) _).trans
      rfl
    · rfl
  have hguarded : ((registrations accountJson (.str "nobody")).machine
      (Started (.str "nobody"))).Guarded (Once _) unregistered
      (.start (nobody 1 "secret") :: (answer 0 12 ++ (answer 0 10 ++ (answer 0 10 ++ (answer 0 11 ++
      (answer 0 12 ++ (answer 0 12 ++ (answer 0 10 ++ [.start (nobody 2 "sesame")])))))))) := by
    apply Machine.Guarded.cons rfl trivial
    apply guarded_answer rfl rfl rfl (once_event (by decide)) (once_event (by decide)) (once_wake rfl)
    apply guarded_answer rfl (event_hincrby 1000 rfl rfl rfl rfl) rfl
    · exact once_event (by decide)
    · exact once_event (by decide)
    · exact once_wake rfl
    apply guarded_answer rfl rfl rfl (once_event (by decide)) (once_event (by decide)) (once_wake rfl)
    apply guarded_answer rfl rfl rfl (once_event (by decide)) (once_event (by decide)) (once_wake rfl)
    apply guarded_answer rfl rfl rfl (once_event (by decide)) (once_event (by decide)) (once_wake rfl)
    apply guarded_answer rfl rfl rfl (once_event (by decide)) (once_event (by decide))
    · rintro t ⟨⟩
      trivial
    -- after the last update no insert of the name is stored
    apply guarded_answer rfl rfl rfl
    · rintro r text ⟨⟩
    · rintro r text ⟨⟩ ⟨⟩
    · rintro t ⟨⟩
      trivial
    exact Machine.Guarded.cons rfl trivial trivial
  obtain ⟨s, hs, hanswered⟩ := hexec
  refine ⟨s, hs, hanswered, ?_⟩
  exact registered_once accountJson (Machine.Reaches.exec _ (.init unregistered_started) hguarded hs)

/-- A request that creates its user while another one registers the name is answered with success
as well. -/
theorem registered_twice :
  let M := (registrations accountJson (.str "nobody")).machine (Started (.str "nobody"))
  M.init unregistered ∧
  ∃ s, M.exec unregistered ([.start (nobody 1 "secret"), .start (nobody 2 "sesame")] ++
      answer 0 12 ++ answer 1 10 ++ answer 0 11 ++ answer 0 11 ++ answer 0 10 ++ answer 0 11 ++
      answer 0 11 ++ [.event 12, .event 12] ++ answer 0 12 ++ [.wake 1] ++ answer 1 12 ++
      answer 1 10 ++ answer 1 12) = some s ∧
    answered s = [nobody 2 "sesame", nobody 1 "secret"] ∧ ¬ (answered s).length ≤ 1
  := by
  intro M
  use unregistered_started
  -- redis counts up for the users of the two requests
  have hexec : ∃ s, ((registrations accountJson (.str "nobody")).machine
      (Started (.str "nobody"))).exec unregistered (([.start (nobody 1 "secret"),
      .start (nobody 2 "sesame")] ++ answer 0 12 ++ answer 1 10 ++ [.event 11]) ++
      .event 11 :: (([.wake 0] ++ answer 0 11 ++ answer 0 10 ++ answer 0 11 ++ answer 0 11 ++
      [.event 12]) ++ .event 12 :: (answer 0 12 ++ [.wake 1] ++ answer 1 12 ++ answer 1 10 ++
      answer 1 12))) = some s ∧ answered s = [nobody 2 "sesame", nobody 1 "secret"] := by
    constructor
    constructor
    · apply (Machine.exec_append rfl _).trans
      apply (Machine.exec_cons (event_hincrby 1000 rfl rfl rfl rfl) _).trans
      apply (Machine.exec_append rfl _).trans
      apply (Machine.exec_cons (event_hincrby 1001 rfl rfl rfl rfl) _).trans
      rfl
    · rfl
  obtain ⟨s, hs, hanswered⟩ := hexec
  refine ⟨s, hs, hanswered, ?_⟩
  rw [hanswered]
  exact nofun

end Login.Registration
