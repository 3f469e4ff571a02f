import FWServer.Kernel.BigEndian
import FWServer.Kernel.Machine
import Mathlib.Data.List.AList
import Mathlib.Logic.Function.Basic
import Mathlib.Order.Defs.LinearOrder

/-!
# The message server

`lualib/snax/msgserver.lua`: a gate whose users shake hands on a connection, send requests and may come back on
another connection.  The response to a request is cached under its session, so that a request that is sent again, by a
later version of the user, is not handled again.

The tables of the source are references: a user stays on its connections after it has logged out, and a coroutine that
waits for the request handler keeps the response that it has made.  The handler returns at any time, or never.  Of the
gate is modelled which connections it passes messages of.  Numbers that `tonumber` may return are any linear order.
-/

namespace Skynet

namespace Msgserver

variable {N : Type}

/-- A value of `user_online`.  `answered` is not in the source: it counts the responses that were sent, or would have
been, had the connection still been there. -/
structure User (N : Type) where
  secret : List UInt8
  version : N
  index : ℕ
  username : List UInt8
  fd : Option ℕ
  ip : Option String
  response : AList fun _ : ℕ => ℕ
  answered : ℕ

/-- A value of `u.response`: `return_fd`, `response`, `version` and `index`, which is read only once it has been set;
and the locals of the coroutine that made it, which may be waiting for the handler.  `place` is not in the source: it
says how many responses of the user were sent before, when this one was sent last. -/
structure Response (N : Type) where
  fd : Option ℕ
  response : Option (List UInt8)
  version : Option N
  index : ℕ
  user : ℕ
  session : ℕ
  origin : ℕ
  waiting : Bool
  place : ℕ

/-- What the server does. -/
inductive Output where
  | status (fd : ℕ) (result : String)
  | send (fd : ℕ) (response : List UInt8)
  | close (fd : ℕ)
  | call (r : ℕ) (username message : List UInt8)

/-- The users and the responses, by their references, the locals of the file, and the connections of the gate. -/
structure State (N : Type) where
  users : ℕ → User N
  userCount : ℕ
  responses : ℕ → Response N
  responseCount : ℕ
  user_online : List UInt8 → Option ℕ
  handshake : ℕ → Option String
  connection : ℕ → Option ℕ
  gate : ℕ → Bool
  out : List Output

/-- What a handshake says once it has been taken apart: `index` and `hmac` are `none` where `tonumber` returns `nil` or
`b64decode` raises an error. -/
structure Hello (N : Type) where
  username : List UInt8
  index : Option N
  hmac : Option (List UInt8)
  text : List UInt8

/-- The configuration, and the functions of strings that a handshake goes through. -/
structure Conf (N : Type) where
  expired_number : ℕ
  hello : List UInt8 → Option (Hello N)
  hmac_hash : List UInt8 → List UInt8 → List UInt8

/-- What happens to the server. -/
inductive Event where
  | login (username secret : List UInt8)
  | logout (username : List UInt8)
  | connect (fd : ℕ) (addr : String)
  | disconnect (fd : ℕ)
  | message (fd : ℕ) (msg : List UInt8)
  | finish (r : ℕ) (result : Option (List UInt8))

namespace State

/-- No user yet. -/
def start (N : Type) [Zero N] : State N where
  users _ := ⟨[], 0, 0, [], none, none, ∅, 0⟩
  userCount := 0
  responses _ := ⟨none, none, none, 0, 0, 0, 0, false, 0⟩
  responseCount := 0
  user_online _ := none
  handshake _ := none
  connection _ := none
  gate _ := false
  out := []

variable (s : State N)

/-- A field of a user is assigned. -/
def setUser (u : ℕ) (user : User N) : State N :=
  { s with users := Function.update s.users u user }

/-- A field of a response is assigned. -/
def setResponse (r : ℕ) (response : Response N) : State N :=
  { s with responses := Function.update s.responses r response }

/-- Outputs are added. -/
def put (out : List Output) : State N :=
  { s with out := s.out ++ out }

/-- `gateserver.closeclient` -/
def closeclient (fd : ℕ) : State N :=
  if s.gate fd then { s with gate := Function.update s.gate fd false }.put [.close fd] else s

/-! ### The functions that services call -/

/-- `server.login`; the assertion leaves everything as it is. -/
def login [Zero N] (username secret : List UInt8) : State N :=
  match s.user_online username with
  | some _ => s
  | none =>
      { s with
        users := Function.update s.users s.userCount ⟨secret, 0, 0, username, none, none, ∅, 0⟩
        userCount := s.userCount + 1
        user_online := Function.update s.user_online username (some s.userCount) }

/-- `server.logout`; for a user that is not online it raises an error. -/
def logout (username : List UInt8) : State N :=
  match s.user_online username with
  | none => s
  | some u =>
      let s := { s with user_online := Function.update s.user_online username none }
      match (s.users u).fd with
      | none => s
      | some fd =>
          let s := s.closeclient fd
          { s with connection := Function.update s.connection fd none }

/-! ### The handler of the gate -/

/-- `handler.connect` -/
def connect (fd : ℕ) (addr : String) : State N :=
  { s with gate := Function.update s.gate fd true, handshake := Function.update s.handshake fd (some addr) }

/-- `handler.disconnect` -/
def disconnect (fd : ℕ) : State N :=
  let s := { s with gate := Function.update s.gate fd false, handshake := Function.update s.handshake fd none }
  match s.connection fd with
  | none => s
  | some c =>
      let s := s.setUser c { s.users c with fd := none }
      { s with connection := Function.update s.connection fd none }

/-- `do_auth`: the state, and what it returns; an error is turned to `400 Bad Request` by its caller. -/
def do_auth [LinearOrder N] (conf : Conf N) (fd : ℕ) (message : List UInt8) (addr : String) : State N × Option String :=
  match conf.hello message with
  | none => (s, some "404 User Not Found")
  | some hello =>
      match s.user_online hello.username with
      | none => (s, some "404 User Not Found")
      | some u =>
          match hello.index, hello.hmac with
          | some idx, some hmac =>
              if idx ≤ (s.users u).version then (s, some "403 Index Expired")
              else if conf.hmac_hash (s.users u).secret hello.text ≠ hmac then (s, some "401 Unauthorized")
              else
                let s := s.setUser u { s.users u with version := idx, fd := some fd, ip := some addr }
                ({ s with connection := Function.update s.connection fd (some u) }, none)
          | _, _ => (s, some "400 Bad Request")

/-- `auth` -/
def auth [LinearOrder N] (conf : Conf N) (fd : ℕ) (addr : String) (msg : List UInt8) : State N :=
  match s.do_auth conf fd msg addr with
  | (s, none) => s.put [.status fd "200 OK"]
  | (s, some result) => (s.put [.status fd result]).closeclient fd

/-! ### Requests -/

/-- A turn of the loop of `retire_response`: the cache, the responses and `max` so far. -/
def retireOne (expired : ℕ) (x : (AList fun _ : ℕ => ℕ) × (ℕ → Response N) × ℕ) (e : (_ : ℕ) × ℕ) :
    (AList fun _ : ℕ => ℕ) × (ℕ → Response N) × ℕ :=
  let (response, responses, max) := x
  let p := responses e.2
  if p.fd = none then
    if p.index < expired then (response.erase e.1, responses, max)
    else
      let index := p.index - expired
      (response, Function.update responses e.2 { p with index := index }, if index > max then index else max)
  else (response, responses, max)

/-- `retire_response` -/
def retire_response (conf : Conf N) (u : ℕ) : State N :=
  let user := s.users u
  if user.index ≥ conf.expired_number * 2 then
    let (response, responses, max) :=
      user.response.entries.foldl (retireOne conf.expired_number) (user.response, s.responses, 0)
    { s with
      users := Function.update s.users u { user with response := response, index := max + 1 }
      responses := responses }
  else s

/-- The end of `do_request`: the response is sent to the connection that asked for it last, if it is there. -/
def answer (conf : Conf N) (u r : ℕ) : State N :=
  let user := s.users u
  let s := s.setUser u { user with index := user.index + 1, answered := user.answered + 1 }
  let p := s.responses r
  let s :=
    match p.fd, p.response with
    | some fd, some response => if s.connection fd = none then s else s.put [.send fd response]
    | _, _ => s
  (s.setResponse r { p with fd := none, place := user.answered }).retire_response conf u

/-- `do_request` up to the call of the request handler, with the new response. -/
def call (u fd session : ℕ) (message : List UInt8) : State N :=
  let r := s.responseCount
  let user := s.users u
  { (s.setUser u { user with response := user.response.insert session r }).setResponse r
      ⟨some fd, none, none, 0, u, session, fd, true, 0⟩ with
    responseCount := r + 1
    out := s.out ++ [.call r user.username message] }

/-- `do_request` where the request has been sent before. -/
def resend (conf : Conf N) (u r fd : ℕ) : State N :=
  let user := s.users u
  let p := { s.responses r with fd := some fd, version := some user.version, index := user.index }
  let s := s.setResponse r p
  match p.response with
  | none => s
  | some _ => s.answer conf u r

/-- The session at the end of a message. -/
def session (message : List UInt8) : ℕ :=
  BigEndian.decode (message.drop (message.length - 4))

/-- `do_request` until it returns or yields, and whether it raises an error. -/
def do_request [DecidableEq N] (conf : Conf N) (fd : ℕ) (message : List UInt8) : State N × Bool :=
  match s.connection fd with
  | none => (s, true)
  | some u =>
      if message.length < 4 then (s, true)
      else
        let session := session message
        let message := message.take (message.length - 4)
        match (s.users u).response.lookup session with
        | none => (s.call u fd session message, false)
        | some r =>
            if (s.responses r).version = some (s.users u).version then
              let s := s.setUser u { s.users u with response := (s.users u).response.erase session }
              if (s.responses r).response = none then (s, true) else (s.call u fd session message, false)
            else (s.resend conf u r fd, false)

/-- The end of `request` after an error. -/
def refuse (fd : ℕ) : State N :=
  if s.connection fd = none then s else s.closeclient fd

/-- `request` -/
def request [DecidableEq N] (conf : Conf N) (fd : ℕ) (msg : List UInt8) : State N :=
  match s.do_request conf fd msg with
  | (s, false) => s
  | (s, true) => s.refuse fd

/-- `handler.message` -/
def message [LinearOrder N] (conf : Conf N) (fd : ℕ) (msg : List UInt8) : State N :=
  match s.handshake fd with
  | some addr =>
      let s := s.auth conf fd addr msg
      { s with handshake := Function.update s.handshake fd none }
  | none => s.request conf fd msg

/-- The result of the handler with what `do_request` puts behind it; `none` is an error of the handler. -/
def packResult (session : ℕ) : Option (List UInt8) → List UInt8
  | some result => result ++ 1 :: BigEndian.encode 4 session
  | none => 0 :: BigEndian.encode 4 session

/-- `do_request` after the handler has returned.  A result that does not fit `>s2` raises an error, and the response is
left as it is. -/
def finish (conf : Conf N) (r : ℕ) (result : Option (List UInt8)) : State N :=
  let p := { s.responses r with waiting := false }
  let result := packResult p.session result
  if result.length > 0xFFFF then (s.setResponse r p).refuse p.origin
  else
    let user := s.users p.user
    let p := { p with
      response := some (BigEndian.encode 2 result.length ++ result), version := some user.version, index := user.index }
    (s.setResponse r p).answer conf p.user r

/-! ### What is left alone -/

@[simp]
theorem setUser_users_self (u : ℕ) (user : User N) :
  (s.setUser u user).users u = user
  := by simp only [setUser, Function.update_self]

theorem setUser_users_of_ne {u v : ℕ} (hv : v ≠ u) (user : User N) :
  (s.setUser u user).users v = s.users v
  := by simp only [setUser, Function.update_of_ne hv]

@[simp]
theorem setResponse_responses_self (r : ℕ) (response : Response N) :
  (s.setResponse r response).responses r = response
  := by simp only [setResponse, Function.update_self]

theorem setResponse_responses_of_ne {r r' : ℕ} (hr : r' ≠ r) (response : Response N) :
  (s.setResponse r response).responses r' = s.responses r'
  := by simp only [setResponse, Function.update_of_ne hr]

/-- A connection that is closed is closed at the gate only. -/
theorem closeclient_eq (fd : ℕ) :
  ∃ gate out, s.closeclient fd = { s with gate := gate, out := out }
  := by
  rw [closeclient]
  split
  · exact ⟨_, _, rfl⟩
  · exact ⟨s.gate, s.out, rfl⟩

/-- The connections after a user with the connection `fd` has logged out. -/
def dropped (fd : Option ℕ) : ℕ → Option ℕ :=
  match fd with
  | none => s.connection
  | some fd => Function.update s.connection fd none

theorem dropped_eq_some {fd : Option ℕ} {fd' v : ℕ} :
  s.dropped fd fd' = some v ↔ s.connection fd' = some v ∧ fd ≠ some fd'
  := by
  cases fd with
  | none => simp [dropped]
  | some fd =>
      obtain rfl | hfd := eq_or_ne fd' fd
      · simp [dropped]
      · simp [dropped, Function.update_of_ne hfd, hfd.symm]

theorem logout_eq {username : List UInt8} {u : ℕ} (hu : s.user_online username = some u) :
  ∃ gate out, s.logout username =
    { s with
      user_online := Function.update s.user_online username none
      connection := s.dropped (s.users u).fd
      gate := gate
      out := out }
  := by
  rw [logout, hu]
  cases hfd : (s.users u).fd with
  | none => exact ⟨s.gate, s.out, by simp only [hfd, dropped]⟩
  | some fd =>
      obtain ⟨gate, out, heq⟩ :=
        closeclient_eq { s with user_online := Function.update s.user_online username none } fd
      exact ⟨gate, out, by simp only [hfd, dropped, heq]⟩

theorem refuse_eq (fd : ℕ) :
  ∃ gate out, s.refuse fd = { s with gate := gate, out := out }
  := by
  rw [refuse]
  split
  · exact ⟨s.gate, s.out, rfl⟩
  · exact s.closeclient_eq fd

/-- What an answer does but for the bytes. -/
theorem answer_eq (conf : Conf N) (u r : ℕ) :
  ∃ out, s.answer conf u r =
    (({ s.setUser u { s.users u with index := (s.users u).index + 1, answered := (s.users u).answered + 1 } with
        out := out }.setResponse r
          { s.responses r with fd := none, place := (s.users u).answered }).retire_response conf u)
  := by
  rw [answer]
  split
  · split
    · exact ⟨s.out, rfl⟩
    · exact ⟨_, rfl⟩
  · exact ⟨s.out, rfl⟩

/-- A handshake is refused, or it connects its user. -/
theorem auth_eq [LinearOrder N] (conf : Conf N) (fd : ℕ) (addr : String) (msg : List UInt8) :
  (∃ gate out, s.auth conf fd addr msg = { s with gate := gate, out := out }) ∨
    ∃ hello u idx out, conf.hello msg = some hello ∧ s.user_online hello.username = some u ∧ hello.index = some idx ∧
      (s.users u).version < idx ∧ hello.hmac = some (conf.hmac_hash (s.users u).secret hello.text) ∧
      s.auth conf fd addr msg =
        { s.setUser u { s.users u with version := idx, fd := some fd, ip := some addr } with
          connection := Function.update s.connection fd (some u)
          out := out }
  := by
  have hrefused (result : String) (h : s.do_auth conf fd msg addr = (s, some result)) :
      ∃ gate out, s.auth conf fd addr msg = { s with gate := gate, out := out } := by
    obtain ⟨gate, out, hclose⟩ := (s.put [.status fd result]).closeclient_eq fd
    rw [auth, h]
    exact ⟨gate, out, hclose⟩
  cases hhello : conf.hello msg with
  | none => exact .inl (hrefused _ (by rw [do_auth, hhello]))
  | some hello =>
      cases honline : s.user_online hello.username with
      | none => exact .inl (hrefused "404 User Not Found" (by simp only [do_auth, hhello, honline]))
      | some u =>
          cases hindex : hello.index with
          | none => exact .inl (hrefused "400 Bad Request" (by simp only [do_auth, hhello, honline, hindex]))
          | some idx =>
              cases hhmac : hello.hmac with
              | none => exact .inl (hrefused "400 Bad Request" (by simp only [do_auth, hhello, honline, hindex, hhmac]))
              | some hmac =>
                  by_cases hexpired : idx ≤ (s.users u).version
                  · exact .inl (hrefused "403 Index Expired"
                      (by simp only [do_auth, hhello, honline, hindex, hhmac, if_pos hexpired]))
                  · by_cases hright : conf.hmac_hash (s.users u).secret hello.text = hmac
                    · subst hright
                      refine .inr ⟨hello, u, idx, s.out ++ [.status fd "200 OK"], rfl, honline, hindex,
                        lt_of_not_ge hexpired, hhmac, ?_⟩
                      simp only [auth, do_auth, hhello, honline, hindex, hhmac, if_neg hexpired, ne_eq,
                        not_true_eq_false, if_false]
                      rfl
                    · exact .inl (hrefused "401 Unauthorized"
                        (by simp only [do_auth, hhello, honline, hindex, hhmac, if_neg hexpired, ne_eq, hright,
                          not_false_eq_true, if_true]))

end State

/-- The step function.  The gate passes on messages of its connections only. -/
def step [LinearOrder N] [Zero N] (conf : Conf N) (s : State N) : Event → Option (State N)
  | .login username secret => some (s.login username secret)
  | .logout username => some (s.logout username)
  | .connect fd addr => some (s.connect fd addr)
  | .disconnect fd => some (s.disconnect fd)
  | .message fd msg => if s.gate fd then some (s.message conf fd msg) else none
  | .finish r result => if (s.responses r).waiting then some (s.finish conf r result) else none

/-- The server under any sequence of events. -/
def machine [LinearOrder N] [Zero N] (conf : Conf N) : Machine (State N) Event where
  init s := s = .start N
  step := step conf

end Msgserver

end Skynet
