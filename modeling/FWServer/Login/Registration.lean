import FWServer.Db.Backend
import FWServer.Kernel.Contract
import FWServer.Login.Login

/-!
# What a registration owes the others

A request to register a name asks whether the name exists, creates a user, inserts the account and
assigns its password and user, with calls to the services between these steps.  The request whose
insert is answered first owns the account from then on: it alone updates it.  All others leave the
account with the password and the user it has, given that they come to their insert before the account
is cached and that nothing else is loaded over it.
-/

open Lua DbCache Backend
open Script (ofReply)

namespace Login.Registration

/-! ### The requests -/

/-- A request to register the name `name`. -/
structure Request (name : Value) where
  fd : ℕ
  protTab : Table
  named : protTab.get (.str "accName") = name

/-- The password a request gives. -/
def Request.password {name : Value} (j : Request name) : Value :=
  j.protTab.get (.str "accPwd")

/-- Whether a message is the answer `isSuccess = 1`. -/
def isSuccess : Script.Message → Bool
  | .prot _ mainId assistId data =>
      decide (mainId = midProtocolLogin ∧ assistId = s2cRegAccount ∧
        data = [("isSuccess", .num 1)])
  | .errcode _ _ => false

/-- Whether a command updates an account. -/
def isUpdate : Cmd → Bool
  | .update .account _ => true
  | _ => false

/-- Whether a call updates an account. -/
def updatesAccount : Script.Call → Bool
  | .redis _ cmd => isUpdate cmd
  | .onLoginUser _ _ _ => false

section

variable (name : Value)

/-- The cached record of the account. -/
def account (s : Script.State) : Option (Ref TName) :=
  record s .account name

/-- The password and the user of two records of an account are the same. -/
def Agree (r r' : Table) : Prop :=
  r.get (.str "accountPwd") = r'.get (.str "accountPwd") ∧
    r.get (.str "userId") = r'.get (.str "userId")

/-- The cached records of the users are kept apart from the one of the account, which has its name
in the primary-key field. -/
structure Apart (s : Script.State) : Prop where
  users : ∀ key ref, (s.cache .user).lookup key = some ref →
    ref = .static .user ∨ ∃ n < s.heap.next, ref = .created n
  account : ∀ ref, account name s = some ref →
    (ref = .static .account ∨ ∃ n < s.heap.next, ref = .created n) ∧
      (s.deref ref).get (dbtable .account).pkey = name ∧
        ∀ key, (s.cache .user).lookup key ≠ some ref

end

/-! ### What a request owes the others -/

section

variable (name : Value)

/-- The account stays cached, with the same password and user. -/
def Mild (s s' : Script.State) : Prop :=
  ∀ ref, account name s = some ref →
    ∃ ref', account name s' = some ref' ∧ Agree (s'.deref ref') (s.deref ref)

/-- How many updates of the account a request has sent. -/
def updates (asked : List Script.Call) : ℕ :=
  asked.countP updatesAccount

/-- None of the messages is the answer `isSuccess = 1`. -/
def Silent (out : List Script.Message) : Prop :=
  out.filter isSuccess = []

/-- The first request to insert the account owns it; the updates of the account are the owner's.
All others leave the account as it is. -/
def contract : Contract Script.interface where
  replies q r s :=
    Apart name s ∧
      match q with
      | .redis _ (.query .account _) => ∀ ret, r = .ok ret →
          ∀ rtab ∈ ret.tabs, rtab.get (dbtable .account).pkey = name →
            ∀ ref, account name s = some ref → Agree rtab (s.deref ref)
      | .redis _ (.insert .user _) => ∀ ret, r = .ok ret → account name s = none
      | .redis _ (.update .user _) => ∀ ret, r = .ok ret → account name s = none
      | .redis _ (.insert .account _) =>
          name.truthy = true → ∀ ret, r = .ok ret → ret.val = name
      | .redis _ (.update .account rectab) =>
          ∃ ref, account name s = some ref ∧ Agree (s.deref ref) rectab
      | _ => True
  calls p q s :=
    Apart name s ∧ Silent p.outputs ∧
      match q with
      | .redis _ (.query .account key) =>
          key = name ∧ updates p.asked = 0 ∧ Mild name p.began s
      | .redis _ (.insert .user _) => updates p.asked = 0 ∧ Mild name p.began s
      | .redis _ (.update .user _) => updates p.asked = 0 ∧ Mild name p.began s
      | .redis _ (.insert .account key) =>
          key = name ∧ updates p.asked = 0 ∧ Mild name p.began s
      | .redis _ (.update .account rectab) =>
          (∃ ref, account name s = some ref ∧ s.deref ref = rectab) ∧
            (updates p.asked = 0 ∧ account name p.began = none ∨ updates p.asked = 1)
      | _ => False
  raises p s :=
    Apart name s ∧ Silent p.outputs ∧
      (account name p.began ≠ none → account name s ≠ none) ∧
        (updates p.asked ≠ 1 → Mild name p.began s)

/-- A request ends without having touched the account, or as its owner, with its password and the
user it has created. -/
def Ends (j : Request name) (p : Past Script.interface) (a : Option Value) (s : Script.State) :
    Prop :=
  Apart name s ∧ Mild name p.began s ∧
    match a with
    | none => Silent p.outputs ∧ updates p.asked = 0
    | some userId => (p.outputs.filter isSuccess).length = 1 ∧ updates p.asked = 2 ∧
        ∃ ref, account name s = some ref ∧
          (s.deref ref).get (.str "accountPwd") = j.password ∧
          (s.deref ref).get (.str "userId") = userId

/-- Before a request has sent anything for its user. -/
structure Early (p : Past Script.interface) (s : Script.State) : Prop where
  apart : Apart name s
  outputs : p.outputs = []
  asked : updates p.asked = 0
  mild : Mild name p.began s

/-- While a request creates its user. -/
structure Creating (p : Past Script.interface) (s : Script.State) : Prop where
  apart : Apart name s
  outputs : p.outputs = []
  asked : updates p.asked = 0
  began : account name p.began = none
  none : account name s = none

/-- While a request owns the account, after `n` updates of it, with a record that satisfies
`C`. -/
structure Owning (n : ℕ) (C : Table → Prop) (p : Past Script.interface) (s : Script.State) :
    Prop where
  apart : Apart name s
  outputs : p.outputs = []
  asked : updates p.asked = n
  cached : ∃ ref, account name s = some ref ∧ C (s.deref ref)

end

section Owes

variable {name : Value} {p : Past Script.interface} {s s' : Script.State}

theorem Mild.refl (s : Script.State) :
  Mild name s s
  := fun ref hrec => ⟨ref, hrec, rfl, rfl⟩

theorem Mild.cached (h : Mild name s s') (hcached : account name s ≠ none) :
  account name s' ≠ none
  := by
  obtain ⟨ref, hrec⟩ := Option.ne_none_iff_exists'.mp hcached
  obtain ⟨ref', hrec', -⟩ := h ref hrec
  rw [hrec']
  exact Option.some_ne_none ref'

/-- A cache without the account has nothing to keep. -/
theorem mild_of_none (h : account name s = none) :
  Mild name s s'
  := by
  intro ref hrec
  cases h.symm.trans hrec

theorem updates_cons_update (redis : ℕ) (rectab : Table) (asked : List Script.Call) :
  updates (.redis redis (.update .account rectab) :: asked) = updates asked + 1
  := List.countP_cons_of_pos rfl

theorem silent_nil :
  Silent []
  := rfl

/-- Moving on to the next service changes nothing else. -/
theorem Apart.nextInTurn (h : Apart name s) :
  Apart name (Database.nextInTurn s)
  := ⟨h.users, h.account⟩

theorem Early.nextInTurn (h : Early name p s) :
  Early name p (Database.nextInTurn s)
  := ⟨h.apart.nextInTurn, h.outputs, h.asked, h.mild⟩

theorem Creating.nextInTurn (h : Creating name p s) :
  Creating name p (Database.nextInTurn s)
  := ⟨h.apart.nextInTurn, h.outputs, h.asked, h.began, h.none⟩

theorem Owning.nextInTurn {n : ℕ} {C : Table → Prop} (h : Owning name n C p s) :
  Owning name n C p (Database.nextInTurn s)
  := ⟨h.apart.nextInTurn, h.outputs, h.asked, h.cached⟩

/-- Errors before the insert. -/
theorem Early.raises (h : Early name p s) :
  (contract name).raises p s
  := ⟨h.apart, h.outputs ▸ silent_nil, h.mild.cached, fun _ => h.mild⟩

theorem Creating.early (h : Creating name p s) :
  Early name p s
  := ⟨h.apart, h.outputs, h.asked, mild_of_none h.began⟩

/-- A request that is resumed before its insert. -/
theorem early_resumed (hapart : Apart name s) {asked : List Script.Call}
    (hasked : updates asked = 0) :
  Early name ⟨asked, s, []⟩ s
  := ⟨hapart, rfl, hasked, .refl s⟩

/-- A request that is resumed while the account is not cached. -/
theorem creating_resumed (hapart : Apart name s) (hnone : account name s = none)
    {asked : List Script.Call} (hasked : updates asked = 0) :
  Creating name ⟨asked, s, []⟩ s
  := ⟨hapart, rfl, hasked, hnone, hnone⟩

/-- Errors of the owner before its last update. -/
theorem Owning.raises {C : Table → Prop} (h : Owning name 1 C p s) :
  (contract name).raises p s
  := by
  refine ⟨h.apart, h.outputs ▸ silent_nil, ?_, fun hne => absurd h.asked hne⟩
  rintro - hnone
  obtain ⟨ref, hrec, -⟩ := h.cached
  cases hnone.symm.trans hrec

end Owes

/-! ### Asking whether the name exists -/

section Exist

variable {name : Value} {p : Past Script.interface} {s : Script.State}

theorem Agree.trans {r r' r'' : Table} (h : Agree r r') (h' : Agree r' r'') :
  Agree r r''
  := ⟨h.1.trans h'.1, h.2.trans h'.2⟩

/-- Creating a table changes no record. -/
theorem Early.alloc (h : Early name p s) (t : Table) (d : TName → AList fun _ : Value => Script.DueTime) :
  Early name p { s with heap := s.heap.alloc t, dtab := d }
  := by
  have hderef : ∀ ref, account name s = some ref → (s.heap.alloc t).cells ref = s.deref ref := by
    intro ref hrec
    apply Heap.alloc_cells_of_ne
    obtain ⟨rfl | ⟨n, hn, rfl⟩, -⟩ := h.apart.account ref hrec
    · exact nofun
    · rintro ⟨⟩
      exact lt_irrefl _ hn
  constructor
  · constructor
    · intro key ref hrec
      rcases h.apart.users key ref hrec with hstatic | ⟨n, hn, hcreated⟩
      · exact .inl hstatic
      · exact .inr ⟨n, Nat.lt_succ_of_lt hn, hcreated⟩
    · intro ref hrec
      obtain ⟨hwhich, hkey, hapart⟩ := h.apart.account ref hrec
      refine ⟨?_, ?_, hapart⟩
      · rcases hwhich with hstatic | ⟨n, hn, hcreated⟩
        · exact .inl hstatic
        · exact .inr ⟨n, Nat.lt_succ_of_lt hn, hcreated⟩
      · rw [← hderef ref hrec] at hkey
        exact hkey
  · exact h.outputs
  · exact h.asked
  · intro ref hrec
    obtain ⟨ref', hrec', hagree⟩ := h.mild ref hrec
    refine ⟨ref', hrec', ?_⟩
    rw [← hderef ref' hrec'] at hagree
    exact hagree

/-- Putting a created table under its key keeps the account when the table agrees with it. -/
theorem Early.put (hname : name.truthy = true) (h : Early name p s) {t : Table}
    (hagree : t.get (dbtable .account).pkey = name →
      ∀ ref, account name p.began = some ref → Agree t (p.began.deref ref))
    (d : TName → AList fun _ : Value => Script.DueTime) :
  Early name p { s with
    heap := s.heap.alloc t
    dtab := d
    cache := Function.update s.cache .account ((s.cache .account).insert
      (t.get (dbtable .account).pkey) (.created s.heap.next)) }
  := by
  have halloc := h.alloc t d
  have haccount : ∀ c, account name { s with heap := s.heap.alloc t, dtab := d, cache := c }
      = (c .account).lookup name := by
    intro c
    rw [account, record, if_pos hname]
  have hself : (s.heap.alloc t).cells (.created s.heap.next) = t := Heap.alloc_cells_self _ _
  -- the account has the table now, or the record it had
  have hcases : ∀ ref, (Function.update s.cache .account ((s.cache .account).insert
      (t.get (dbtable .account).pkey) (.created s.heap.next)) .account).lookup name = some ref →
      (t.get (dbtable .account).pkey = name ∧ ref = .created s.heap.next) ∨
        account name s = some ref := by
    intro ref hrec
    rw [lookup_insert] at hrec
    split at hrec
    · next hkey => exact .inl ⟨hkey.2.symm, (Option.some.inj hrec).symm⟩
    · right
      rw [account, record, if_pos hname]
      exact hrec
  constructor
  · constructor
    · exact halloc.apart.users
    · intro ref hrec
      rw [haccount] at hrec
      rcases hcases ref hrec with ⟨hkey, rfl⟩ | hrec
      · refine ⟨.inr ⟨_, Nat.lt_succ_self _, rfl⟩, ?_, ?_⟩
        · exact (congrArg (fun r => r.get (dbtable .account).pkey) hself).trans hkey
        · intro key hrec
          rcases h.apart.users key _ hrec with hstatic | ⟨n, hn, hcreated⟩
          · cases hstatic
          · cases hcreated
            exact lt_irrefl _ hn
      · exact halloc.apart.account ref hrec
  · exact h.outputs
  · exact h.asked
  · intro ref hrec
    rw [haccount, lookup_insert]
    rcases eq_or_ne (t.get (dbtable .account).pkey) name with hkey | hkey
    · refine ⟨.created s.heap.next, if_pos ⟨rfl, hkey.symm⟩, ?_⟩
      have hagree := hagree hkey ref hrec
      rw [← hself] at hagree
      exact hagree
    · obtain ⟨ref', hrec', hmild⟩ := halloc.mild ref hrec
      rw [haccount] at hrec'
      exact ⟨ref', (if_neg fun hk => hkey hk.2.symm).trans hrec', hmild⟩

/-- Loading records keeps the account when those of its name agree with it. -/
theorem cacheRecords_obeys (hname : name.truthy = true) (recs : List Table) (h : Early name p s)
    (hagree : ∀ rtab ∈ recs, rtab.get (dbtable .account).pkey = name →
      ∀ ref, account name p.began = some ref → Agree rtab (p.began.deref ref)) :
  (Database.cacheRecords .account recs).Obeys (contract name) (fun p _ s => Early name p s) p s
  := by
  induction recs generalizing s with
  | nil => exact h
  | cons rtab recs ih =>
      obtain ⟨d, hd⟩ := Database.cacheRecords_cons_resume .account rtab recs s
      split at hd
      · exact Coroutine.obeys_of_raised hd (h.alloc rtab d).raises
      · rw [Coroutine.obeys_congr hd]
        apply ih
        · exact h.put hname (hagree rtab List.mem_cons_self) d
        · exact fun r hr => hagree r (List.mem_cons_of_mem _ hr)

/-- Asking whether the name exists leaves the account as it is. -/
theorem exist_obeys (hname : name.truthy = true) (h : Early name p s) :
  (Database.exist .account name).Obeys (contract name) (fun p _ s => Early name p s) p s
  := by
  obtain ⟨e, he⟩ := Database.isExist_resume .account hname
  have hres := he s
  split at hres
  · exact Coroutine.obeys_of_returned hres h
  · cases hturn : Database.handlerInTurn s with
    | none =>
        rw [hturn] at hres
        exact Coroutine.obeys_of_raised hres h.nextInTurn.raises
    | some redis =>
        rw [hturn] at hres
        apply Coroutine.obeys_of_waiting hres
        · exact ⟨h.nextInTurn.apart, h.outputs ▸ silent_nil, rfl, h.asked, h.nextInTurn.mild⟩
        · rintro r s₁ ⟨hapart, hagree⟩
          have h₁ : Early name ⟨.redis redis (.query .account name) :: p.asked, s₁, []⟩ s₁ :=
            early_resumed hapart h.asked
          rcases r with e | ret
          · exact h₁.raises
          · rw [Script.ofReply_ok_bind]
            dsimp only
            split
            · exact h₁
            · apply (cacheRecords_obeys hname ret.tabs h₁ (hagree ret rfl)).bind
              exact fun p₂ _ s₂ h₂ => h₂

end Exist

/-! ### Creating the user -/

section User

variable {name : Value} {p : Past Script.interface} {s s' : Script.State}

/-- A user record in the table of the defaults, and the time it is due. -/
theorem Creating.assign (h : Creating name p s) (k v : Value)
    (d : TName → AList fun _ : Value => Script.DueTime) :
  Creating name p { s with heap := s.heap.assign (.static .user) k v, dtab := d }
  := by
  refine ⟨⟨h.apart.users, ?_⟩, h.outputs, h.asked, h.began, h.none⟩
  intro ref hrec
  cases h.none.symm.trans hrec

/-- A service has created the user. -/
theorem insertedUser_obeys (h : Creating name p s) (redis : ℕ) (ret : Answer) :
  (Database.inserted .user redis ret).Obeys (contract name)
    (fun p h s => Creating name p s ∧ h.tabname = .user) p s
  := by
  obtain ⟨d, hres⟩ := Database.inserted_resume .user redis ret s
  dsimp only at hres
  have hkeyed : Creating name p { s with
      heap := keyedHeap .user ret.val (.static .user) s
      dtab := d } := by
    rw [keyedHeap]
    split
    · exact h.assign _ _ d
    · exact ⟨⟨h.apart.users, h.apart.account⟩, h.outputs, h.asked, h.began, h.none⟩
  split at hres
  · exact Coroutine.obeys_of_raised hres h.early.raises
  · split at hres
    · exact Coroutine.obeys_of_raised hres hkeyed.early.raises
    · apply Coroutine.obeys_of_waiting hres
      · have hapart : Apart name { s with
            heap := keyedHeap .user ret.val (.static .user) s
            dtab := d
            cache := Function.update s.cache .user ((s.cache .user).insert
              (cacheKey .user ret.val ((keyedHeap .user ret.val (.static .user) s).cells
                (.static .user))) (.static .user)) } := by
          constructor
          · intro key ref hrec
            dsimp only at hrec
            rw [lookup_insert] at hrec
            split at hrec
            · exact .inl (Option.some.inj hrec).symm
            · exact hkeyed.apart.users key ref hrec
          · intro ref hrec
            cases hkeyed.none.symm.trans hrec
        exact ⟨hapart, h.outputs ▸ silent_nil, h.asked, mild_of_none h.began⟩
      · rintro r s₁ ⟨hapart, hnone⟩
        rcases r with e | ret'
        · exact (early_resumed hapart h.asked).raises
        · exact ⟨creating_resumed hapart (hnone ret' rfl) h.asked, rfl⟩

/-- The request asks a service to create the user. -/
theorem insertUser_obeys (h : Early name p s) :
  (Database.insert .user .nil).Obeys (contract name)
    (fun p h s => Creating name p s ∧ h.tabname = .user) p s
  := by
  obtain ⟨e, he⟩ := Database.init_resume .user .nil true
  have hres := he s
  have hnone : record s .user .nil = none := rfl
  rw [hnone] at hres
  cases hturn : Database.handlerInTurn s with
  | none =>
      rw [hturn] at hres
      exact Coroutine.obeys_of_raised hres h.nextInTurn.raises
  | some redis =>
      rw [hturn] at hres
      apply Coroutine.obeys_of_waiting hres
      · exact ⟨h.nextInTurn.apart, h.outputs ▸ silent_nil, h.asked, h.nextInTurn.mild⟩
      · rintro r s₁ ⟨hapart, hnone₁⟩
        rcases r with e | ret
        · exact (early_resumed hapart h.asked).raises
        · rw [Script.ofReply_ok_bind]
          apply insertedUser_obeys
          exact creating_resumed hapart (hnone₁ ret rfl) h.asked

/-- Assigning a field of the user. -/
theorem setUser_obeys (h : Creating name p s) (userdb : Database.Handle) (k v : Value) :
  (Database.set userdb k v).Obeys (contract name) (fun p _ s => Creating name p s) p s
  := by
  obtain ⟨s', hs', hset⟩ := Database.set_resume_cases userdb k v s
  have hcreating : Creating name p s' := by
    rcases hs' with rfl | ⟨rectab, v', -, -, rfl⟩
    · exact h
    · refine ⟨⟨h.apart.users, ?_⟩, h.outputs, h.asked, h.began, h.none⟩
      intro ref hrec
      cases h.none.symm.trans hrec
  rcases hset with hset | ⟨e, hset⟩
  · exact Coroutine.obeys_of_returned hset hcreating
  · exact Coroutine.obeys_of_raised hset hcreating.early.raises

/-- Writing the user back. -/
theorem updateUser_obeys (h : Creating name p s) {userdb : Database.Handle}
    (hdb : userdb.tabname = .user) :
  (Database.update userdb).Obeys (contract name) (fun p _ s => Creating name p s) p s
  := by
  rw [Database.update, hdb]
  split
  · obtain ⟨e, he⟩ := Database.updateTab_resume .user userdb.recordKey false
    have hres := he s
    cases hturn : Database.handlerInTurn s with
    | none =>
        rw [hturn] at hres
        exact Coroutine.obeys_of_raised hres h.nextInTurn.early.raises
    | some redis =>
        rw [hturn] at hres
        dsimp only at hres
        cases hrec : record s .user userdb.recordKey with
        | none =>
            rw [hrec] at hres
            exact Coroutine.obeys_of_returned hres h.nextInTurn
        | some rectab =>
            rw [hrec] at hres
            apply Coroutine.obeys_of_waiting hres
            · exact ⟨h.nextInTurn.apart, h.outputs ▸ silent_nil, h.asked, h.nextInTurn.early.mild⟩
            · rintro r s₁ ⟨hapart, hnone⟩
              rcases r with e | ret
              · exact (early_resumed hapart h.asked).raises
              · rw [Script.ofReply_ok_bind, Database.updated, Bool.and_false]
                exact creating_resumed hapart (hnone ret rfl) h.asked
  · exact h

/-- Reading a field of the user. -/
theorem getUser_obeys (h : Creating name p s) (userdb : Database.Handle) (k : Value) :
  (Database.get userdb k).Obeys (contract name)
    (fun p v s => Creating name p s ∧ v.truthy = true) p s
  := by
  rw [Database.get_eq, Coroutine.Obeys]
  cases hv : Database.getValue s userdb k with
  | none => exact h.early.raises
  | some v => exact ⟨h, Database.getValue_truthy hv⟩

/-- The user is created before the account is cached. -/
theorem onRegisterUser_obeys (h : Early name p s) (userName : Value) :
  (GameUser.onRegisterUser userName).Obeys (contract name)
    (fun p userId s => Creating name p s ∧ userId.truthy = true) p s
  := by
  apply (insertUser_obeys h).bind
  rintro p₁ userdb s₁ ⟨h₁, hdb⟩
  apply (setUser_obeys h₁ userdb _ _).bind
  rintro p₂ - s₂ h₂
  apply (setUser_obeys h₂ userdb _ _).bind
  rintro p₃ - s₃ h₃
  apply (setUser_obeys h₃ userdb _ _).bind
  rintro p₄ - s₄ h₄
  apply (updateUser_obeys h₄ hdb).bind
  rintro p₅ - s₅ h₅
  exact getUser_obeys h₅ userdb _

end User

/-! ### Creating the account -/

section Account

variable {name : Value} {p : Past Script.interface} {s : Script.State}

/-- The default record, cached under the name. -/
theorem apart_inserted (hname : name.truthy = true) (h : Apart name s)
    (d : TName → AList fun _ : Value => Script.DueTime) :
  let s' : Script.State := { s with
    heap := s.heap.assign (.static .account) (dbtable .account).pkey name
    dtab := d
    cache := Function.update s.cache .account ((s.cache .account).insert name (.static .account)) }
  Apart name s' ∧ account name s' = some (.static .account)
  := by
  intro s'
  have hself : account name s' = some (.static .account) := by
    rw [account, record, if_pos hname]
    dsimp only [s']
    rw [lookup_insert, if_pos ⟨rfl, rfl⟩]
  refine ⟨⟨h.users, ?_⟩, hself⟩
  intro ref hrec
  obtain rfl := Option.some.inj (hself.symm.trans hrec)
  refine ⟨.inl rfl, ?_, ?_⟩
  · dsimp only [s', Script.State.deref]
    rw [Heap.assign_cells_self, Table.get_set_self]
  · intro key hrec
    rcases h.users key _ hrec with hstatic | ⟨n, -, hcreated⟩
    · cases hstatic
    · cases hcreated

/-- The owner is the request whose insert is answered first. -/
theorem insertAccount_obeys (hname : name.truthy = true) (h : Creating name p s) :
  (Database.insert .account name).Obeys (contract name)
    (fun p db s => Owning name 1 (fun _ => True) p s ∧ db = ⟨.account, name⟩) p s
  := by
  obtain ⟨e, he⟩ := Database.init_resume .account name true
  have hres := he s
  have hnone : record s .account name = none := h.none
  rw [hnone] at hres
  cases hturn : Database.handlerInTurn s with
  | none =>
      rw [hturn] at hres
      exact Coroutine.obeys_of_raised hres h.nextInTurn.early.raises
  | some redis =>
      rw [hturn, hname] at hres
      apply Coroutine.obeys_of_waiting hres
      · exact ⟨h.nextInTurn.apart, h.outputs ▸ silent_nil, rfl, h.asked, h.nextInTurn.early.mild⟩
      · rintro r s₁ ⟨hapart, hreplied⟩
        have hval := hreplied hname
        have h₁ : Early name ⟨.redis redis (.insert .account name) :: p.asked, s₁, []⟩ s₁ :=
          early_resumed hapart h.asked
        rcases r with e | ret
        · exact h₁.raises
        · rw [Script.ofReply_ok_bind]
          obtain ⟨d, hd⟩ := Database.inserted_resume .account redis ret s₁
          dsimp only at hd
          have hkey : cacheKey .account ret.val
              ((keyedHeap .account ret.val (.static .account) s₁).cells (.static .account)) = name := by
            rw [cacheKey, hval ret rfl, Value.orElse_of_truthy hname]
          rw [hkey, hval ret rfl, keyedHeap, if_pos hname, if_neg (Value.ne_nil_of_truthy hname)] at hd
          split at hd
          · exact Coroutine.obeys_of_raised hd h₁.raises
          · next hcached =>
              obtain ⟨hapart₂, hself⟩ := apart_inserted hname hapart d
              have hbegan : account name s₁ = none := by
                rw [account, record, if_pos hname]
                simpa using hcached
              apply Coroutine.obeys_of_waiting hd
              · exact ⟨hapart₂, silent_nil, ⟨_, hself, rfl⟩, .inl ⟨h.asked, hbegan⟩⟩
              · rintro r s₃ ⟨hapart₃, ref, hrec, hagree⟩
                have hasked := updates_cons_update redis
                  ((s₁.heap.assign (.static .account) (dbtable .account).pkey name).cells
                    (.static .account)) (.redis redis (.insert .account name) :: p.asked)
                have h₃ : Owning name 1 (fun _ => True) ⟨_, s₃, []⟩ s₃ :=
                  ⟨hapart₃, rfl, hasked.trans (congrArg (· + 1) h.asked), ref, hrec, trivial⟩
                rcases r with e | ret'
                · exact h₃.raises
                · exact ⟨h₃, rfl⟩

/-- The owner assigns a field. -/
theorem setAccount_obeys {C : Table → Prop} (h : Owning name 1 C p s) {k fv : Value}
    (hfv : fv.truthy = true) (hk : k ≠ (dbtable .account).pkey) :
  (Database.set ⟨.account, name⟩ k fv).Obeys (contract name)
    (fun p _ s => Owning name 1 (fun t => ∃ t₀, C t₀ ∧ t = t₀.set k fv) p s) p s
  := by
  have hset := Database.set_resume ⟨.account, name⟩ k fv s
  obtain ⟨ref, hrec, hC⟩ := h.cached
  have hrecord : record s .account name = some ref := hrec
  dsimp only at hset
  split at hset
  · rw [hrecord, Value.orElse_of_truthy hfv, Value.orElse_of_truthy hfv] at hset
    apply Coroutine.obeys_of_returned hset
    have hself : (s.heap.assign ref k fv).cells ref = (s.deref ref).set k fv :=
      Heap.assign_cells_self _ _ _ _
    constructor
    · constructor
      · exact h.apart.users
      · intro ref' hrec'
        obtain rfl := Option.some.inj (hrec.symm.trans hrec')
        obtain ⟨hwhich, hkey, hapart⟩ := h.apart.account ref hrec
        refine ⟨hwhich, ?_, hapart⟩
        have hkey' : ((s.heap.assign ref k fv).cells ref).get (dbtable .account).pkey = name := by
          rw [hself, Table.get_set_of_ne _ hk.symm, hkey]
        exact hkey'
    · exact h.outputs
    · exact h.asked
    · exact ⟨ref, hrec, _, hC, hself⟩
  · exact Coroutine.obeys_of_raised hset h.raises

/-- The owner writes the account back. -/
theorem updateAccount_obeys (hname : name.truthy = true) {C : Table → Prop}
    (hC : ∀ t t', Agree t' t → C t → C t') (h : Owning name 1 C p s) :
  (Database.update ⟨.account, name⟩).Obeys (contract name)
    (fun p _ s => Owning name 2 C p s ∧ Mild name p.began s) p s
  := by
  obtain ⟨e, he⟩ := Database.updateTab_resume .account name false
  have hres := he s
  rw [Database.update, if_pos hname]
  obtain ⟨ref, hrec, hCref⟩ := h.cached
  have hrecord : record s .account name = some ref := hrec
  rw [hrecord] at hres
  cases hturn : Database.handlerInTurn s with
  | none =>
      rw [hturn] at hres
      exact Coroutine.obeys_of_raised hres h.nextInTurn.raises
  | some redis =>
      rw [hturn] at hres
      apply Coroutine.obeys_of_waiting hres
      · exact ⟨h.nextInTurn.apart, h.outputs ▸ silent_nil, ⟨ref, hrec, rfl⟩, .inr h.asked⟩
      · rintro r s₁ ⟨hapart, ref', hrec', hagree⟩
        rcases r with e | ret
        · refine ⟨hapart, silent_nil, ?_, fun _ => .refl s₁⟩
          exact fun hcached => hcached
        · rw [Script.ofReply_ok_bind, Database.updated, Bool.and_false]
          have hasked := updates_cons_update redis (s.deref ref) p.asked
          refine ⟨⟨hapart, rfl, hasked.trans (congrArg (· + 1) h.asked), ref', hrec', ?_⟩, .refl s₁⟩
          exact hC _ _ hagree hCref

/-- The request creates its user and then inserts the account. -/
theorem createAccount_obeys (hname : name.truthy = true) {accPwd : Value}
    (hpwd : accPwd.truthy = true) (h : Early name p s) :
  (createAccount name accPwd).Obeys (contract name)
    (fun p userId s => Owning name 2 (fun t => t.get (.str "accountPwd") = accPwd ∧
      t.get (.str "userId") = userId) p s ∧ Mild name p.began s) p s
  := by
  apply (onRegisterUser_obeys h name).bind
  rintro p₁ userId s₁ ⟨h₁, huserId⟩
  apply (insertAccount_obeys hname h₁).bind
  rintro p₂ db s₂ ⟨h₂, rfl⟩
  apply (setAccount_obeys h₂ hpwd (by decide)).bind
  rintro p₃ - s₃ h₃
  apply (setAccount_obeys h₃ huserId (by decide)).bind
  rintro p₄ - s₄ h₄
  have hC : Owning name 1 (fun t => t.get (.str "accountPwd") = accPwd ∧
      t.get (.str "userId") = userId) p₄ s₄ := by
    refine ⟨h₄.apart, h₄.outputs, h₄.asked, ?_⟩
    obtain ⟨ref, hrec, t₁, ⟨t₀, -, rfl⟩, ht⟩ := h₄.cached
    refine ⟨ref, hrec, ?_, ?_⟩
    · rw [ht, Table.get_set_of_ne _ (by decide), Table.get_set_self]
    · rw [ht, Table.get_set_self]
  apply (updateAccount_obeys hname _ hC).bind
  · exact fun p₅ _ s₅ h₅ => h₅
  · rintro t t' ⟨hpwd', huserId'⟩ ⟨hpwd, huserId⟩
    exact ⟨hpwd'.trans hpwd, huserId'.trans huserId⟩

/-- A length is computed without a call. -/
theorem stringLen_obeys (h : Early name p s) (v : Value) :
  (stringLen v).Obeys (contract name) (fun p _ s => Early name p s) p s
  := by
  cases v with
  | num n => exact h
  | str t => exact h
  | _ => exact h.raises

/-- A request keeps its part of the contract. -/
theorem onRegister_obeys (j : Request name) (h : Apart name s) :
  (onRegister j.fd j.protTab).Obeys (contract name) (Ends name j) ⟨[], s, []⟩ s
  := by
  have hearly : Early name ⟨[], s, []⟩ s := early_resumed h rfl
  rw [onRegister, j.named]
  split
  · exact ⟨h, .refl s, rfl, rfl⟩
  · next hgiven =>
      obtain ⟨hname, hpwd⟩ : name.truthy = true ∧ j.password.truthy = true := by
        simpa [Request.password] using hgiven
      apply (stringLen_obeys hearly name).bind
      intro p₁ nameLen s₁ h₁
      extract_lets register
      have hregister : ∀ short p s, Early name p s →
          (register short).Obeys (contract name) (Ends name j) p s := by
        intro short p₂ s₂ h₂
        dsimp only [register]
        split
        · exact ⟨h₂.apart, h₂.mild, by rw [h₂.outputs]; rfl, h₂.asked⟩
        · apply (exist_obeys hname h₂).bind
          intro p₃ existing s₃ h₃
          split
          · exact ⟨h₃.apart, h₃.mild, by rw [h₃.outputs]; rfl, h₃.asked⟩
          · apply (createAccount_obeys hname hpwd h₃).bind
            rintro p₄ userId s₄ ⟨h₄, hmild⟩
            exact ⟨h₄.apart, hmild, by rw [h₄.outputs]; rfl, h₄.asked, h₄.cached⟩
      split
      · exact hregister true p₁ s₁ h₁
      · apply (stringLen_obeys h₁ _).bind
        intro p₂ pwdLen s₂ h₂
        exact hregister _ p₂ s₂ h₂

end Account

end Login.Registration
