import FWServer.Db.RecordStore
import FWServer.Login.Login

/-!
# Authentication

Which logins the handlers let through to `g_gameuser.onLoginUser`, whatever the cache and redis
hold.  A handle on an account without a record answers `get` with the defaults of the table, so
the default password opens every account that has no record.
-/

open Lua Script DbCache Database DbRedis

namespace Login

/-! ### The world of a handler -/

/-- The services of the pool, and redis. -/
structure World where
  service : ℕ → DbRedis.State
  db : Redis

/-- The services answer a command at once.  Nothing answers `onLoginUser`: a handler that calls
it stays there. -/
def answer (json : Cjson) : Call → World → Option (Except String Answer × World)
  | .redis dest cmd, w =>
      let x := execute json cmd ⟨w.service dest, w.db⟩
      some (x.1, ⟨Function.update w.service dest x.2.service, x.2.db⟩)
  | .onLoginUser _ _ _, _ => none

/-- The requests for a session. -/
inductive Request where
  | signIN
  | checkSignIN

/-- The handler of a request. -/
def handler : Request → ℕ → Table → Script Unit
  | .signIN => onLogin
  | .checkSignIN => onCheckLogin

section

variable (json : Cjson) (s : Script.State) (w : World)

/-- The handler of a request of the connection `fd` gets to `onLoginUser` for it. -/
def Reaches (req : Request) (fd : ℕ) (protTab : Table) : Prop :=
  ∃ userId ischecklogin k, ((handler req fd protTab).serve (answer json) s w).halt
    = .waiting (.onLoginUser fd userId ischecklogin) k

/-- The record of an account: the cached one, or else the one in redis. -/
def accountRecord (name : Value) : Option Table :=
  match record s .account name with
  | some r => some (s.deref r)
  | none =>
      match found json .account name w.db with
      | .ok recs => recs.head?
      | .error _ => none

/-- The account has a record, and its password is the one of the request. -/
def Authenticated (protTab : Table) : Prop :=
  ∃ rectab, accountRecord json s w (protTab.get (.str "loginName")) = some rectab ∧
    rectab.get (.str "accountPwd") = protTab.get (.str "loginPwd")

/-- The record a handle on the account finds, if it finds one; looking the account up raises an
error when there is no answer. -/
def lookedUp (name : Value) : Option (Option Table) :=
  match handlerInTurn s, record s .account name with
  | none, _ => none
  | some _, some r => some (some (s.deref r))
  | some _, none =>
      match found json .account name w.db with
      | .error _ => none
      | .ok [] => some none
      | .ok (rectab :: _) =>
          let key := rectab.get (dbtable .account).pkey
          if key = .nil then none else some (if key = name then some rectab else none)

/-- A field of a record that need not be there. -/
def fieldOf (rectab : Option Table) (f : Value) : Value :=
  (rectab.map fun r => r.get f).getD .nil

/-- The request gives the default password, and the handle finds no record with a password
while the account, if it has a record, has another password. -/
structure DefaultOpens (protTab : Table) : Prop where
  named : (protTab.get (.str "loginName")).truthy = true
  given : (protTab.get (.str "loginPwd")).truthy = true
  default : protTab.get (.str "loginPwd") = (s.detail .account).get (.str "accountPwd")
  userId : ((s.detail .account).get (.str "userId")).truthy = true
  unset : ∃ rectab, lookedUp json s w (protTab.get (.str "loginName")) = some rectab ∧
    (fieldOf rectab (.str "accountPwd")).truthy = false
  other : ∀ rectab, accountRecord json s w (protTab.get (.str "loginName")) = some rectab →
    rectab.get (.str "accountPwd") ≠ protTab.get (.str "loginPwd")

end

/-! ### Looking an account up -/

/-- A key has at most one record. -/
theorem found_tail {json : Cjson} {name : Value} (hname : name.truthy = true) {db : Redis}
    {rectab : Table} {recs : List Table}
    (h : found json .account name db = .ok (rectab :: recs)) :
  recs = []
  := by
  rw [found, if_pos hname] at h
  split at h
  · cases h
  · split at h
    · cases h
    · next text _ _ =>
        cases hdecode : json.decode text with
        | error e =>
            rw [hdecode] at h
            cases h
        | ok r =>
            rw [hdecode] at h
            cases h
            rfl

/-- The account table has no counter, so a query finds what was there before connecting. -/
theorem execute_query {json : Cjson} {name : Value} (hname : name.truthy = true) (s : Server) :
  (execute json (.query .account name) s).1
    = (found json .account name s.db).map Answer.records
  := by
  obtain ⟨t, hsame, heq⟩ := query_alone json .account s name
  have hlookup : (t.db .account).lookup name.tostring = (s.db .account).lookup name.tostring :=
    hsame _ _ fun hauto => absurd hauto (by decide)
  rw [execute, CMD.dispatch, alone_map, heq, found, found, if_pos hname, if_pos hname, hlookup]

/-- Once a record is cached, its own key finds it and no other key does. -/
theorem serve_queried {ω : Type} (f : Call → ω → Option (Except String Answer × ω))
    {s : Script.State} {name : Value} (hname : name.truthy = true) {rectab : Table}
    (hrecord : record s .account name = none) (w : ω) :
  let x := (queried .account name (.records [rectab])).serve f (nextInTurn s) w
  let key := rectab.get (dbtable .account).pkey
  match if key = .nil then none else some (if key = name then some rectab else none) with
  | none => ∃ e, x.halt = .raised e
  | some rectab => x.halt = .returned ⟨.account, name⟩ ∧
      x.state.detail .account = s.detail .account ∧
      ∀ k, rawField x.state ⟨.account, name⟩ k = fieldOf rectab k
  := by
  intro x key
  obtain ⟨d, hd⟩ := cacheRecords_cons_resume .account rectab [] (nextInTurn s)
  have hx : x = (cacheRecords .account [rectab] >>= fun _ => pure ⟨.account, name⟩).serve f
      (nextInTurn s) w := rfl
  split at hd
  · next hnil =>
      have hraised := Coroutine.resume_bind_of_raised
        (g := fun _ => pure (Handle.mk .account name)) hd
      rw [if_pos hnil, hx, Coroutine.serve_of_raised f hraised]
      exact ⟨_, rfl⟩
  · next hnil =>
      have hreturned := Coroutine.resume_bind_of_returned
        (g := fun _ => pure (Handle.mk .account name)) hd
      rw [if_neg hnil, hx, Coroutine.serve_of_returned f hreturned]
      use rfl, Heap.alloc_cells_static _ _ _
      intro k
      rw [record, if_pos hname] at hrecord
      rw [rawField, record, if_pos hname]
      dsimp only
      rw [Function.update_self]
      rcases eq_or_ne key name with hkey | hkey
      · have hcell : (s.heap.alloc rectab).cells (.created s.heap.next) = rectab :=
          Heap.alloc_cells_self _ _
        rw [if_pos hkey, ← hkey, AList.lookup_insert]
        exact congrArg (fun r => r.get k) hcell
      · have hlookup : ((nextInTurn s).cache .account).lookup name = none := hrecord
        rw [if_neg hkey, AList.lookup_insert_ne hkey.symm, hlookup]
        rfl

/-- Looking an account up leads to a handle that finds what `lookedUp` says. -/
theorem serve_query (json : Cjson) (s : Script.State) (w : World) {name : Value}
    (hname : name.truthy = true) :
  let x := (query .account name).serve (answer json) s w
  match lookedUp json s w name with
  | none => ∃ e, x.halt = .raised e
  | some rectab => x.halt = .returned ⟨.account, name⟩ ∧
      x.state.detail .account = s.detail .account ∧
      ∀ f, rawField x.state ⟨.account, name⟩ f = fieldOf rectab f
  := by
  obtain ⟨e, he⟩ := init_resume .account name false
  intro x
  have hx : x = (query .account name).serve (answer json) s w := rfl
  rw [Coroutine.serve_eq_resume, query, he] at hx
  rw [lookedUp]
  cases hturn : handlerInTurn s with
  | none =>
      rw [hturn] at hx
      rw [hx]
      exact ⟨_, rfl⟩
  | some redis =>
      rw [hturn] at hx
      dsimp only at hx
      cases hrecord : record s .account name with
      | some r =>
          rw [hrecord, Option.isSome_some, if_pos rfl] at hx
          rw [hx]
          use rfl, rfl
          intro f
          have hfield : rawField (nextInTurn s) ⟨.account, name⟩ f = rawField s ⟨.account, name⟩ f := rfl
          rw [hfield, rawField, hrecord]
          rfl
      | none =>
          rw [hrecord] at hx
          simp only [Option.isSome_none, Bool.false_eq_true, if_false, answer,
            execute_query hname] at hx
          cases hfound : found json .account name w.db with
          | error e =>
              rw [hfound] at hx
              rw [hx]
              exact ⟨e, rfl⟩
          | ok recs =>
              rw [hfound] at hx
              obtain ⟨w', hy⟩ : ∃ w', x = (queried .account name (.records recs)).serve
                  (answer json) (nextInTurn s) w' := ⟨_, hx⟩
              rw [hy]
              rcases recs with _ | ⟨rectab, recs⟩
              · rw [Coroutine.serve_of_returned _ rfl]
                use rfl, rfl
                intro f
                have hfield : rawField (nextInTurn s) ⟨.account, name⟩ f
                    = rawField s ⟨.account, name⟩ f := rfl
                rw [hfield, rawField, hrecord]
                rfl
              · obtain rfl := found_tail hname hfound
                exact serve_queried (answer json) hname hrecord w'

/-! ### Checking the password -/

/-- What both handlers do: look the account up, compare the passwords and `enter`, or `refuse`. -/
def checked (refuse : Script Unit) (enter : Value → Script Unit) (protTab : Table) :
    Script Unit :=
  let loginName := protTab.get (.str "loginName")
  let loginPwd := protTab.get (.str "loginPwd")
  if !loginName.truthy || !loginPwd.truthy then
    refuse
  else do
    let db ← query .account loginName
    let accountPwd ← get db (.str "accountPwd")
    if accountPwd ≠ loginPwd then
      refuse
    else
      let userId ← get db (.str "userId")
      enter userId

/-- What a handler does when it refuses. -/
def refuse : Request → ℕ → Script Unit
  | .signIN, fd => sendErrcode fd "M_LOGIN_ACC_OR_PWD_ERROR"
  | .checkSignIN, fd => sendProt fd midProtocolLogin s2cReDoLogin []

/-- What a handler does when the passwords agree. -/
def enter : Request → ℕ → Value → Script Unit
  | .signIN, fd, userId => do
      let _ ← onLoginUser fd userId false
      sendProt fd midProtocolLogin s2cSignIN [("loginIn", .num 1)]
  | .checkSignIN, fd, userId => do
      let isSuccess ← onLoginUser fd userId true
      if !isSuccess.truthy then
        sendProt fd midProtocolLogin s2cReDoLogin []
      else
        sendProt fd midProtocolLogin s2cCheckSignIN []

theorem handler_eq (req : Request) (fd : ℕ) (protTab : Table) :
  handler req fd protTab = checked (refuse req fd) (enter req fd) protTab
  := by
  cases req <;> rfl

section

variable (json : Cjson)

theorem refuse_halt (req : Request) (fd : ℕ) (s : Script.State) (w : World) :
  ((refuse req fd).serve (answer json) s w).halt = .returned ()
  := by
  cases req <;> rfl

theorem enter_halt (req : Request) (fd : ℕ) (userId : Value) (s : Script.State) (w : World) :
  ∃ b k, ((enter req fd userId).serve (answer json) s w).halt = .waiting (.onLoginUser fd userId b) k
  := by
  cases req <;> exact ⟨_, _, rfl⟩

theorem serve_get_bind {α : Type} (h : Handle) (k : Value) (g : Value → Script α)
    (s : Script.State) (w : World) :
  (get h k >>= g).serve (answer json) s w =
    match getValue s h k with
    | some v => (g v).serve (answer json) s w
    | none => ⟨[], s, w, .raised (notDefined k)⟩
  := by
  rw [get_eq, Coroutine.read_bind, Coroutine.serve]
  cases getValue s h k <;> rfl

/-- The password a request has to give: the one the handle finds, the default without one. -/
structure Opens (s : Script.State) (w : World) (protTab : Table) : Prop where
  named : (protTab.get (.str "loginName")).truthy = true
  given : (protTab.get (.str "loginPwd")).truthy = true
  password : ∃ rectab, lookedUp json s w (protTab.get (.str "loginName")) = some rectab ∧
    (fieldOf rectab (.str "accountPwd")).orElse ((s.detail .account).get (.str "accountPwd"))
      = protTab.get (.str "loginPwd")
  default : ((s.detail .account).get (.str "accountPwd")).truthy = true
  userId : ((s.detail .account).get (.str "userId")).truthy = true

/-- Whom the handlers let through. -/
theorem reaches_iff_opens (s : Script.State) (w : World) (req : Request) (fd : ℕ)
    (protTab : Table) :
  Reaches json s w req fd protTab ↔ Opens json s w protTab
  := by
  rw [Reaches, handler_eq, checked]
  split
  · next hmissing =>
      apply iff_of_false
      · rintro ⟨userId, b, k, h⟩
        rw [refuse_halt] at h
        cases h
      · intro hopens
        simp [hopens.named, hopens.given] at hmissing
  · next hpresent =>
      obtain ⟨hnamed, hgiven⟩ : (protTab.get (.str "loginName")).truthy = true ∧
          (protTab.get (.str "loginPwd")).truthy = true := by
        simpa using hpresent
      have hquery := serve_query json s w hnamed
      cases hlook : lookedUp json s w (protTab.get (.str "loginName")) with
      | none =>
          rw [hlook] at hquery
          obtain ⟨e, he⟩ := hquery
          apply iff_of_false
          · rintro ⟨userId, b, k, h⟩
            rw [Coroutine.serve_bind_raised he] at h
            cases h
          · intro hopens
            obtain ⟨rectab, hrectab, -⟩ := hopens.password
            rw [hlook] at hrectab
            cases hrectab
      | some rectab =>
          rw [hlook] at hquery
          obtain ⟨hhalt, hdetail, hfield⟩ := hquery
          rw [Coroutine.serve_bind_halt hhalt, serve_get_bind, getValue]
          dsimp only
          rw [hdetail, hfield]
          cases hdefault : ((s.detail .account).get (.str "accountPwd")).truthy with
          | false =>
              apply iff_of_false
              · rintro ⟨userId, b, k, h⟩
                cases h
              · intro hopens
                exact Bool.false_ne_true (hdefault.symm.trans hopens.default)
          | true =>
              rw [if_pos rfl]
              dsimp only
              split
              · next hpwd =>
                  apply iff_of_false
                  · rintro ⟨userId, b, k, h⟩
                    rw [refuse_halt] at h
                    cases h
                  · intro hopens
                    obtain ⟨rectab', hrectab, hpassword⟩ := hopens.password
                    obtain rfl := Option.some.inj (hlook.symm.trans hrectab)
                    exact hpwd hpassword
              · next hpwd =>
                  rw [serve_get_bind, getValue]
                  dsimp only
                  rw [hdetail, hfield]
                  cases huserId : ((s.detail .account).get (.str "userId")).truthy with
                  | false =>
                      apply iff_of_false
                      · rintro ⟨userId, b, k, h⟩
                        cases h
                      · intro hopens
                        exact Bool.false_ne_true (huserId.symm.trans hopens.userId)
                  | true =>
                      apply iff_of_true
                      · obtain ⟨b, k, h⟩ := enter_halt json req fd _ _ _
                        exact ⟨_, b, k, h⟩
                      · exact ⟨hnamed, hgiven, ⟨rectab, hlook, not_not.mp hpwd⟩, hdefault, huserId⟩

/-- A record the handle finds is the record of the account. -/
theorem accountRecord_of_lookedUp {s : Script.State} {w : World} {name : Value}
    {rectab : Table} (h : lookedUp json s w name = some (some rectab)) :
  accountRecord json s w name = some rectab
  := by
  rw [lookedUp] at h
  rw [accountRecord]
  split at h
  · cases h
  · next hrecord =>
      rw [hrecord]
      exact Option.some.inj h
  · next hrecord =>
      rw [hrecord]
      split at h
      · cases h
      · cases h
      · next hfound =>
          rw [hfound]
          dsimp only at h
          split at h
          · cases h
          · split at h
            · exact Option.some.inj h
            · cases h

/-- A request gets to `onLoginUser` only for an account that has a record with the password it
gives, precisely unless the default password opens the account. -/
theorem login_authenticates_iff (s : Script.State) (w : World) (req : Request) (fd : ℕ)
    (protTab : Table) :
  (Reaches json s w req fd protTab → Authenticated json s w protTab)
    ↔ ¬ DefaultOpens json s w protTab
  := by
  rw [reaches_iff_opens]
  constructor
  · intro h hdefault
    obtain ⟨rectab, hlook, hunset⟩ := hdefault.unset
    have hopens : Opens json s w protTab := by
      have htruthy := hdefault.given
      rw [hdefault.default] at htruthy
      refine ⟨hdefault.named, hdefault.given, ⟨rectab, hlook, ?_⟩, htruthy, hdefault.userId⟩
      rw [Value.orElse, hunset, hdefault.default]
      rfl
    obtain ⟨rectab, hrectab, hpassword⟩ := h hopens
    exact hdefault.other rectab hrectab hpassword
  · intro hdefault hopens
    by_contra hauth
    obtain ⟨rectab, hlook, hpassword⟩ := hopens.password
    have hother : ∀ rectab, accountRecord json s w (protTab.get (.str "loginName")) = some rectab →
        rectab.get (.str "accountPwd") ≠ protTab.get (.str "loginPwd") :=
      fun rectab hrectab heq => hauth ⟨rectab, hrectab, heq⟩
    have hunset : (fieldOf rectab (.str "accountPwd")).truthy = false := by
      cases htruthy : (fieldOf rectab (.str "accountPwd")).truthy with
      | false => rfl
      | true =>
          -- the password is then the one of a record, which is the record of the account
          rw [Value.orElse_of_truthy htruthy] at hpassword
          cases rectab with
          | none => cases htruthy
          | some r => exact absurd hpassword (hother r (accountRecord_of_lookedUp json hlook))
    apply hdefault
    rw [Value.orElse, hunset] at hpassword
    exact ⟨hopens.named, hopens.given, hpassword.symm, hopens.userId, ⟨rectab, hlook, hunset⟩,
      hother⟩

end

/-- No client has connected yet: nothing is cached, and redis is empty. -/
def freshWorld : World :=
  ⟨fun _ => ⟨fun _ => false⟩, fun _ => ∅⟩

/-- Nobody is registered, and a client that gives the empty password gets in. -/
theorem empty_password_gets_in :
  let json : Cjson := ⟨fun _ => "null", fun _ => .error "Expected value"⟩
  let s := initial ⟨[10, 11, 12, 13], by decide, by decide⟩
  let protTab := Table.ofFields [("loginName", .str "nobody"), ("loginPwd", .str "")]
  Reaches json s freshWorld .signIN 5 protTab ∧ ¬ Authenticated json s freshWorld protTab
  := by
  intro json s protTab
  constructor
  · exact ⟨.num 0, false, _, rfl⟩
  · rintro ⟨rectab, hrectab, -⟩
    have hnone : accountRecord json s freshWorld (protTab.get (.str "loginName")) = none := rfl
    rw [hnone] at hrectab
    cases hrectab

end Login
