import FWServer.Cluster.Clusterd
import Mathlib.Data.List.Forall2
import Mathlib.Data.List.Nodup

/-!
# Large requests of several connections

Every request that is complete is passed on as its sender packed it, and is answered on its connection with its
own session (`large_requests_kept`), as long as no frame of a request arrives while another request with its
session is incomplete, and no connection is closed while a request of another one is.  The daemon keeps what has
come of all connections in one table, by session, and forgets it with any of them.
-/

namespace Cluster

namespace Core

/-! ### The frames of one request -/

/-- A frame that holds a whole request, and a frame of the several of a large one. -/
theorem Delivers.split {addr : Address} {session : ℤ} {msg : List UInt8} {is_push : Bool}
    {qs qs' : List Request} {q : Request} (h : Delivers addr session msg is_push (qs ++ q :: qs')) :
  (qs = [] ∧ qs' = [] ∧ q.padding = false ∧ q.addr = some addr ∧ q.is_push = is_push ∧
    q.msg = .bytes msg ∧ (is_push = false → q.session = session)) ∨
  q.session = session ∧ (qs = [] → qs' ≠ [] ∧ q.addr = some addr ∧ q.is_push = is_push) ∧
    (qs' ≠ [] → q.padding = true) ∧
    (qs' = [] → q.padding = false ∧ concat ((qs ++ [q]).map Request.msg) = some msg)
  := by
  generalize hl : qs ++ q :: qs' = l at h
  cases h with
  | single haddr hmsg hpadding hpush hsession =>
      left
      obtain ⟨rfl, hq⟩ | ⟨-, hnil⟩ := List.append_eq_singleton_iff.mp hl
      · obtain ⟨rfl, rfl⟩ := List.cons.inj hq
        exact ⟨rfl, rfl, hpadding, haddr, hpush, hmsg, hsession⟩
      · cases hnil
  | @multi r last rs haddr hsession hpadding hpush hparts hmore hlast hconcat =>
      right
      cases qs with
      | nil =>
          obtain ⟨rfl, rfl⟩ := List.cons.inj hl
          have hne : rs ++ [last] ≠ [] := List.append_ne_nil_of_right_ne_nil _ (List.cons_ne_nil _ _)
          exact ⟨hsession, fun _ => ⟨hne, haddr, hpush⟩, fun _ => hpadding, fun hnil => absurd hnil hne⟩
      | cons r' qs =>
          obtain ⟨rfl, hrest⟩ := List.cons.inj hl
          have hmem : q ∈ rs ++ [last] := by
            rw [← hrest]
            exact List.mem_append_right _ List.mem_cons_self
          refine ⟨(hparts q hmem).2, fun hnil => absurd hnil (List.cons_ne_nil _ _), ?_, ?_⟩
          · intro hne
            apply hmore
            obtain ⟨init, l, rfl⟩ := List.eq_nil_or_concat' qs' |>.resolve_left hne
            have hsame : (qs ++ q :: init) ++ [l] = rs ++ [last] := by
              rw [List.append_assoc]
              apply hrest
            rw [← List.append_inj_left' hsame rfl]
            apply List.mem_append_right _ List.mem_cons_self
          · rintro rfl
            obtain ⟨rfl, hq⟩ := List.append_inj' hrest rfl
            obtain ⟨rfl, -⟩ := List.cons.inj hq
            exact ⟨hlast, hconcat⟩

end Core

namespace Clusterd

open Cluster.Core (Address Data Request Delivers Answers Framed packrequest packresponse unpackrequest unpackresponse
  concat)

/-! ### Runs -/

/-- A body is unpacked to a request. -/
def Unpacks (body : List UInt8) (r : Request) : Prop :=
  unpackrequest body = .ok r

/-- What is to be done with a request that has been sent. -/
def Sent.action (r : Sent) : Action :=
  Clusterd.action (some r.addr) r.is_push (some r.msg)

/-- A request is handled as it has been sent. -/
structure HandledAs (r : Sent) (h : Handled) : Prop where
  fd : h.fd = r.fd
  session : r.is_push = false → h.session = r.session
  action : h.action = r.action

/-- A request is answered on its connection, with its session and the message of the reply. -/
structure Responds (r : Sent) (a : Answer) : Prop where
  fd : a.fd = r.fd
  frames : r.is_push = false → ∃ bodies responses, Framed a.frames bodies ∧
    List.Forall₂ (fun b r => unpackresponse b = some r) bodies responses ∧
    Answers r.session a.ok a.msg responses

/-- What has come of a request is in the table. -/
def Holds (large_request : ℕ → Option Large) (x : Sending) : Prop :=
  ∃ (session : ℕ) (requests : List Request), session = x.session ∧
    List.Forall₂ Unpacks x.arrived requests ∧
    large_request session = some ⟨some x.addr, x.is_push, requests.map Request.msg⟩

/-- The requests that are complete have been handled as they were sent, in order.  Each answer is one to its
request, no request is answered twice, and one that is no push has been answered or is still being served.  What
has come of the others is in the table. -/
structure Kept (st : State) : Prop where
  handled : List.Forall₂ HandledAs st.completed st.process.handled
  answered : ∀ a ∈ st.process.answers, ∃ r, st.completed[a.n]? = some r ∧ Responds r a
  once : (st.process.answers.map Answer.n).Nodup
  served : ∀ (n : ℕ) (r : Sent), st.completed[n]? = some r → r.is_push = false →
    n ∈ st.process.waiting ∨ n ∈ st.process.answers.map Answer.n
  held : ∀ n x, st.sending n = some x → x.arrived ≠ [] → Holds st.process.large_request x

/-- Handles are numbers of four bytes, and messages are shorter than `2 ^ 31` bytes. -/
def Admitted : Event → Prop
  | .request _ addr msg _ => (∀ n, addr = .number n → 0 ≤ n ∧ n < 2 ^ 32) ∧ msg.length < 2 ^ 31
  | .register register_name => ∀ name addr, register_name name = some addr → addr.length < 2 ^ 31
  | .reply _ _ msg => msg.length < 2 ^ 31
  | _ => True

/-- When the first frame of a request arrives, no other request with the session that it has is incomplete.
When a connection is closed, no request of another one is; and none at all when one is warned of. -/
def Unmixed (st : State) : Event → Prop
  | .deliver n => ∀ x body rest r, st.sending n = some x → x.rest = body :: rest → x.arrived = [] →
      unpackrequest body = .ok r → ∀ m y, st.sending m = some y → y.arrived ≠ [] → m ≠ n →
      y.session ≠ r.session
  | .close fd => ∀ n x, st.sending n = some x → x.arrived ≠ [] → x.fd = fd
  | .warning _ => ∀ n x, st.sending n = some x → x.arrived = []
  | _ => True

/-! ### Answers -/

/-- The coroutines and what they do: `busy` is the one that runs. -/
structure Answering (p : Process) (completed : List Sent) (busy : Option ℕ) : Prop where
  handled : List.Forall₂ HandledAs completed p.handled
  session : ∀ r ∈ completed, 1 ≤ r.session ∧ r.session < 2 ^ 31
  names : ∀ name addr, p.register_name name = some addr → addr.length < 2 ^ 31
  waiting : ∀ n ∈ p.waiting, n < completed.length ∧ n ∉ p.answers.map Answer.n
  nodup : p.waiting.Nodup
  answered : ∀ a ∈ p.answers, ∃ r, completed[a.n]? = some r ∧ Responds r a
  once : (p.answers.map Answer.n).Nodup
  running : ∀ n ∈ busy, n < completed.length ∧ n ∉ p.waiting ∧ n ∉ p.answers.map Answer.n
  served : ∀ (n : ℕ) (r : Sent), completed[n]? = some r → r.is_push = false →
    n ∈ busy ∨ n ∈ p.waiting ∨ n ∈ p.answers.map Answer.n

variable {p : Process} {completed : List Sent} {r : Sent} {n fd session : ℕ} {msg : List UInt8}

/-- The table of what has come does not matter to them. -/
theorem Answering.of_large {busy : Option ℕ} (h : Answering p completed busy)
    (large_request : ℕ → Option Large) :
  Answering { p with large_request := large_request } completed busy
  := ⟨h.handled, h.session, h.names, h.waiting, h.nodup, h.answered, h.once, h.running, h.served⟩

theorem getElem?_of_forall₂ {γ δ : Type} {R : γ → δ → Prop} {l : List γ} {l' : List δ}
    (h : List.Forall₂ R l l') {n : ℕ} {x : γ} (hx : l[n]? = some x) :
  ∃ y, l'[n]? = some y ∧ R x y
  := by
  induction h generalizing n with
  | nil => cases hx
  | @cons a b l l' hab hrest ih =>
      cases n with
      | zero =>
          obtain rfl : a = x := Option.some.inj hx
          use b, rfl
      | succ n => apply ih hx

theorem respond_ok {h : Handled} (hn : p.handled[n]? = some h) {ok : Bool} {response : Core.PackedResponse}
    (hpack : packresponse h.session ok msg = .ok response) :
  p.respond n ok msg = { p with answers := p.answers ++ [⟨n, h.fd, ok, msg, response.frames⟩] }
  := by
  rw [Process.respond, hn]
  dsimp only
  rw [hpack]

theorem respond_error {h : Handled} (hn : p.handled[n]? = some h) {ok : Bool} {e : Core.PackError}
    (hpack : packresponse h.session ok msg = .error e) :
  p.respond n ok msg = p
  := by
  rw [Process.respond, hn]
  dsimp only
  rw [hpack]

/-- A response to a request can be packed. -/
theorem responds_of_pack (hsession : 1 ≤ r.session ∧ r.session < 2 ^ 31) {h : Handled} (hr : HandledAs r h)
    (ok : Bool) (hmsg : msg.length < 2 ^ 31) (hpush : r.is_push = false) :
  ∃ response bodies responses, packresponse h.session ok msg = .ok response ∧
    Framed response.frames bodies ∧
    List.Forall₂ (fun b r => unpackresponse b = some r) bodies responses ∧
    Answers r.session ok msg responses
  := by
  rw [hr.session hpush]
  apply Core.response_answered hsession.1 hsession.2 hmsg

/-- A coroutine answers, and ends. -/
theorem Answering.respond (h : Answering p completed (some n)) (ok : Bool) (hmsg : msg.length < 2 ^ 31) :
  Answering (p.respond n ok msg) completed none
  := by
  obtain ⟨hlt, hwaiting, hanswers⟩ := h.running n rfl
  have hr : completed[n]? = some completed[n] := List.getElem?_eq_getElem hlt
  have hsession := h.session completed[n] (List.getElem_mem hlt)
  obtain ⟨hd, hhd, has⟩ := getElem?_of_forall₂ h.handled hr
  cases hpack : packresponse hd.session ok msg with
  | error e =>
      rw [respond_error hhd hpack]
      refine ⟨h.handled, h.session, h.names, h.waiting, h.nodup, h.answered, h.once, nofun, ?_⟩
      intro m r hm hpush
      obtain hrun | hserved := h.served m r hm hpush
      · obtain rfl := Option.some.inj hrun
        obtain rfl := Option.some.inj (hr.symm.trans hm)
        obtain ⟨_, _, _, hok, -⟩ := responds_of_pack hsession has ok hmsg hpush
        cases hpack.symm.trans hok
      · apply Or.inr hserved
  | ok response =>
      rw [respond_ok hhd hpack]
      refine ⟨h.handled, h.session, h.names, ?_, h.nodup, ?_, ?_, nofun, ?_⟩
      · intro m hm
        obtain ⟨hm', hnot⟩ := h.waiting m hm
        use hm'
        rw [List.map_append, List.mem_append]
        rintro (hmem | hmem)
        · apply hnot hmem
        · obtain rfl := List.mem_singleton.mp hmem
          apply hwaiting hm
      · intro a ha
        obtain ha | ha := List.mem_append.mp ha
        · apply h.answered a ha
        · obtain rfl := List.mem_singleton.mp ha
          refine ⟨_, hr, has.fd, fun hpush => ?_⟩
          obtain ⟨response', bodies, responses, hok, hframes⟩ :=
            responds_of_pack hsession has ok hmsg hpush
          obtain rfl : response = response' := Except.ok.inj (hpack.symm.trans hok)
          use bodies, responses
      · rw [List.map_append, List.map_singleton, ← List.concat_eq_append]
        apply h.once.concat hanswers
      · intro m r hm hpush
        rw [List.map_append, List.mem_append]
        obtain hrun | hwait | hanswer := h.served m r hm hpush
        · obtain rfl := Option.some.inj hrun
          apply Or.inr (.inr (.inr (List.mem_singleton_self _)))
        · apply Or.inr (.inl hwait)
        · apply Or.inr (.inr (.inl hanswer))

/-- A coroutine calls. -/
theorem Answering.wait (h : Answering p completed (some n)) :
  Answering { p with waiting := p.waiting ++ [n] } completed none
  := by
  obtain ⟨hlt, hwaiting, hanswers⟩ := h.running n rfl
  refine ⟨h.handled, h.session, h.names, ?_, ?_, h.answered, h.once, nofun, ?_⟩
  · intro m hm
    obtain hm | hm := List.mem_append.mp hm
    · apply h.waiting m hm
    · obtain rfl := List.mem_singleton.mp hm
      use hlt
  · rw [← List.concat_eq_append]
    apply h.nodup.concat hwaiting
  · intro m r hm hpush
    obtain hrun | hwait | hanswer := h.served m r hm hpush
    · obtain rfl := Option.some.inj hrun
      apply Or.inr (.inl (List.mem_append_right _ (List.mem_singleton_self _)))
    · apply Or.inr (.inl (List.mem_append_left _ hwait))
    · apply Or.inr (.inr hanswer)

/-- A coroutine ends without an answer to a push. -/
theorem Answering.finish (h : Answering p completed (some n)) (hr : completed[n]? = some r)
    (hpush : r.is_push = true) :
  Answering p completed none
  := by
  refine ⟨h.handled, h.session, h.names, h.waiting, h.nodup, h.answered, h.once, nofun, ?_⟩
  intro m r' hm hno
  obtain hrun | hserved := h.served m r' hm hno
  · obtain rfl := Option.some.inj hrun
    obtain rfl := Option.some.inj (hr.symm.trans hm)
    cases hpush.symm.trans hno
  · apply Or.inr hserved

/-- A coroutine gets its reply. -/
theorem Answering.resume (h : Answering p completed none) (hn : n ∈ p.waiting) :
  Answering { p with waiting := p.waiting.erase n } completed (some n)
  := by
  obtain ⟨hlt, hanswers⟩ := h.waiting n hn
  refine ⟨h.handled, h.session, h.names, ?_, h.nodup.erase n, h.answered, h.once, ?_, ?_⟩
  · intro m hm
    apply h.waiting m (List.mem_of_mem_erase hm)
  · rintro m hm
    obtain rfl := Option.some.inj hm
    refine ⟨hlt, ?_, hanswers⟩
    apply h.nodup.not_mem_erase
  · intro m r hm hpush
    obtain hrun | hwait | hanswer := h.served m r hm hpush
    · cases hrun
    · rcases eq_or_ne m n with rfl | hne
      · apply Or.inl rfl
      · apply Or.inr (.inl ((List.mem_erase_of_ne hne).mpr hwait))
    · apply Or.inr (.inr hanswer)

/-- A coroutine begins with a request. -/
theorem Answering.start (h : Answering p completed none) (hsession : 1 ≤ r.session ∧ r.session < 2 ^ 31)
    {x : Handled} (hr : HandledAs r x) :
  Answering { p with handled := p.handled ++ [x] } (completed ++ [r]) (some p.handled.length)
  := by
  have hlength := h.handled.length_eq
  have hlast : (completed ++ [r])[p.handled.length]? = some r := by
    rw [← hlength]
    apply List.getElem?_concat_length
  have hold {m : ℕ} (hm : m < completed.length) : (completed ++ [r])[m]? = completed[m]? :=
    List.getElem?_append_left hm
  refine ⟨List.rel_append h.handled (.cons hr .nil), ?_, h.names, ?_, h.nodup, ?_, h.once, ?_, ?_⟩
  · intro r' hr'
    obtain hr' | hr' := List.mem_append.mp hr'
    · apply h.session r' hr'
    · obtain rfl := List.mem_singleton.mp hr'
      apply hsession
  · intro m hm
    obtain ⟨hlt, hnot⟩ := h.waiting m hm
    rw [List.length_append]
    use Nat.lt_add_right _ hlt
  · intro a ha
    obtain ⟨r', hr', hresponds⟩ := h.answered a ha
    use r', (hold (List.getElem?_eq_some_iff.mp hr').1).trans hr'
  · intro m hm
    obtain rfl := Option.some.inj hm
    refine ⟨?_, ?_, ?_⟩
    · rw [List.length_append, hlength]
      apply Nat.lt_succ_self
    · intro hmem
      apply Nat.lt_irrefl p.handled.length
      rw [← hlength]
      rw [← hlength] at hmem
      apply (h.waiting _ hmem).1
    · intro hmem
      obtain ⟨a, ha, heq⟩ := List.mem_map.mp hmem
      obtain ⟨r', hr', -⟩ := h.answered a ha
      rw [heq, ← hlength] at hr'
      cases (List.getElem?_eq_none (Nat.le_refl completed.length)).symm.trans hr'
  · intro m r' hm hpush
    rcases Nat.lt_or_ge m completed.length with hlt | hge
    · rw [hold hlt] at hm
      obtain hrun | hserved := h.served m r' hm hpush
      · cases hrun
      · apply Or.inr hserved
    · have hlt := (List.getElem?_eq_some_iff.mp hm).1
      rw [List.length_append, List.length_singleton] at hlt
      obtain rfl : p.handled.length = m := by omega
      apply Or.inl rfl

/-- A request that is complete is handled. -/
theorem Answering.handle (h : Answering p completed none) (hsession : 1 ≤ r.session ∧ r.session < 2 ^ 31)
    (hpush : r.is_push = false → session = r.session) :
  Answering (p.handle r.fd session r.action) (completed ++ [r]) none
  := by
  have hr : HandledAs r ⟨r.fd, session, r.action⟩ := ⟨rfl, hpush, rfl⟩
  have hstart := h.start hsession hr
  have hlast : (completed ++ [r])[p.handled.length]? = some r := by
    rw [← h.handled.length_eq]
    apply List.getElem?_concat_length
  unfold Process.handle
  dsimp only
  cases haction : r.action with
  | invalid =>
      rw [haction] at hstart
      apply hstart.respond
      decide +kernel
  | lookup name =>
      rw [haction] at hstart
      dsimp only
      cases hname : p.register_name name with
      | none =>
          apply hstart.respond
          decide +kernel
      | some addr =>
          apply hstart.respond
          apply h.names name addr hname
  | rawsend addr msg =>
      rw [haction] at hstart
      apply hstart.finish hlast
      rw [Sent.action, Clusterd.action] at haction
      split_ifs at haction with hzero hsend
      apply hsend
  | rawcall addr msg =>
      rw [haction] at hstart
      apply hstart.wait

/-! ### What has come -/

/-- The requests on their way: each has a session and is delivered by its frames. -/
structure Wellformed (x : Sending) : Prop where
  session : 1 ≤ x.session ∧ x.session < 2 ^ 31
  more : x.rest ≠ []
  delivers : ∃ requests, List.Forall₂ Unpacks (x.arrived ++ x.rest) requests ∧
    Delivers x.addr x.session x.msg x.is_push requests

/-- The table holds what has come of each request that is incomplete, and no more; they have not the same
session. -/
structure Receiving (large_request : ℕ → Option Large) (sending : ℕ → Option Sending) : Prop where
  held : ∀ n x, sending n = some x → x.arrived ≠ [] → Holds large_request x
  alone : ∀ m n x y, sending m = some x → sending n = some y → x.arrived ≠ [] → y.arrived ≠ [] →
    x.session = y.session → m = n
  owned : ∀ s l, large_request s = some l → ∃ n x, sending n = some x ∧ x.arrived ≠ [] ∧ x.session = s

variable {large_request : ℕ → Option Large} {sending : ℕ → Option Sending} {x : Sending} {l : Large}

/-- The table holds nothing of a request that has not begun to arrive. -/
theorem Receiving.large_request_eq_none (h : Receiving large_request sending) {s : ℕ}
    (hx : sending n = some x) (hnone : x.arrived = [])
    (halone : ∀ m y, sending m = some y → y.arrived ≠ [] → m ≠ n → y.session ≠ s) :
  large_request s = none
  := by
  by_contra hsome
  obtain ⟨l, hl⟩ := Option.ne_none_iff_exists'.mp hsome
  obtain ⟨m, y, hy, harrived, hsession⟩ := h.owned s l hl
  apply halone m y hy harrived _ hsession
  rintro rfl
  obtain rfl := Option.some.inj (hx.symm.trans hy)
  contradiction

/-- A request has been packed. -/
theorem Receiving.request (h : Receiving large_request sending) (hnew : sending n = none)
    (hx : x.arrived = []) :
  Receiving large_request (Function.update sending n (some x))
  := by
  have hold {m : ℕ} {y : Sending} (hy : Function.update sending n (some x) m = some y)
      (harrived : y.arrived ≠ []) : sending m = some y := by
    rcases eq_or_ne m n with rfl | hne
    · rw [Function.update_self] at hy
      rw [Option.some.inj hy] at hx
      contradiction
    · rwa [Function.update_of_ne hne] at hy
  constructor
  · intro m y hy harrived
    apply h.held m y (hold hy harrived) harrived
  · intro m m' y y' hy hy' harrived harrived'
    apply h.alone m m' y y' (hold hy harrived) (hold hy' harrived') harrived harrived'
  · intro s l hl
    obtain ⟨m, y, hy, howned⟩ := h.owned s l hl
    use m, y
    rw [Function.update_of_ne]
    · use hy
    · rintro rfl
      cases hnew.symm.trans hy

/-- A request ends, whose session is in the table no more. -/
theorem Receiving.remove (h : Receiving large_request sending) {s : ℕ} (hx : sending n = some x)
    (hsession : x.arrived ≠ [] → (s : ℤ) = x.session)
    (halone : ∀ m y, sending m = some y → y.arrived ≠ [] → m ≠ n → y.session ≠ s) :
  Receiving (Function.update large_request s none) (Function.update sending n none)
  := by
  have hold {m : ℕ} {y : Sending} (hy : Function.update sending n none m = some y) :
      m ≠ n ∧ sending m = some y := by
    rcases eq_or_ne m n with rfl | hne
    · rw [Function.update_self] at hy
      cases hy
    · rw [Function.update_of_ne hne] at hy
      use hne
  constructor
  · intro m y hy harrived
    obtain ⟨hne, hy⟩ := hold hy
    obtain ⟨t, requests, ht, hrequests, hl⟩ := h.held m y hy harrived
    use t, requests, ht, hrequests
    rw [Function.update_of_ne, hl]
    rintro rfl
    apply halone m y hy harrived hne ht.symm
  · intro m m' y y' hy hy'
    apply h.alone m m' y y' (hold hy).2 (hold hy').2
  · intro t l hl
    have hne : t ≠ s := by
      rintro rfl
      rw [Function.update_self] at hl
      cases hl
    rw [Function.update_of_ne hne] at hl
    obtain ⟨m, y, hy, harrived, hsession'⟩ := h.owned t l hl
    use m, y
    rw [Function.update_of_ne]
    · use hy
    · rintro rfl
      obtain rfl := Option.some.inj (hx.symm.trans hy)
      apply hne
      have heq := (hsession harrived).trans hsession'
      omega

/-- The next frame of a large request is kept. -/
theorem Receiving.part (h : Receiving large_request sending) {s : ℕ} {body : List UInt8}
    {rest : List (List UInt8)} {q : Request} (hx : sending n = some x) (hsession : (s : ℤ) = x.session)
    (hbody : Unpacks body q)
    (hfirst : x.arrived = [] → q.addr = some x.addr ∧ q.is_push = x.is_push)
    (halone : ∀ m y, sending m = some y → y.arrived ≠ [] → m ≠ n → y.session ≠ s) :
  Receiving
    (Function.update large_request s (some { (large_request s).getD ⟨q.addr, q.is_push, []⟩ with
      msgs := ((large_request s).getD ⟨q.addr, q.is_push, []⟩).msgs ++ [q.msg] }))
    (Function.update sending n (some { x with arrived := x.arrived ++ [body], rest := rest }))
  := by
  -- of the other requests nothing has changed
  have hold {m : ℕ} {y : Sending} (hne : m ≠ n)
      (hy : Function.update sending n (some { x with arrived := x.arrived ++ [body], rest := rest }) m =
        some y) : sending m = some y := by
    rwa [Function.update_of_ne hne] at hy
  constructor
  · intro m y hy harrived
    rcases eq_or_ne m n with rfl | hne
    · rw [Function.update_self] at hy
      obtain rfl := Option.some.inj hy
      by_cases hnone : x.arrived = []
      · have hempty := h.large_request_eq_none hx hnone halone
        obtain ⟨haddr, hpush⟩ := hfirst hnone
        use s, [q], hsession
        rw [Function.update_self, hempty, hnone, haddr, hpush]
        use .cons hbody .nil
        rfl
      · obtain ⟨t, requests, ht, hrequests, hl⟩ := h.held m x hx hnone
        obtain rfl : t = s := by
          have heq := ht.trans hsession.symm
          omega
        use t, requests ++ [q], hsession, List.rel_append hrequests (.cons hbody .nil)
        rw [Function.update_self, hl, List.map_append]
        rfl
    · have hy := hold hne hy
      obtain ⟨t, requests, ht, hrequests, hl⟩ := h.held m y hy harrived
      use t, requests, ht, hrequests
      rw [Function.update_of_ne, hl]
      rintro rfl
      apply halone m y hy harrived hne ht.symm
  · intro m m' y y' hy hy' harrived harrived' heq
    rcases eq_or_ne m n with rfl | hne
    · rcases eq_or_ne m' m with rfl | hne'
      · rfl
      · rw [Function.update_self] at hy
        obtain rfl := Option.some.inj hy
        apply absurd (heq.symm.trans hsession.symm)
        apply halone m' y' (hold hne' hy') harrived' hne'
    · rcases eq_or_ne m' n with rfl | hne'
      · rw [Function.update_self] at hy'
        obtain rfl := Option.some.inj hy'
        apply absurd (heq.trans hsession.symm)
        apply halone m y (hold hne hy) harrived hne
      · apply h.alone m m' y y' (hold hne hy) (hold hne' hy') harrived harrived' heq
  · intro t l hl
    rcases eq_or_ne t s with rfl | hne
    · use n, { x with arrived := x.arrived ++ [body], rest := rest }, Function.update_self _ _ _
      use List.append_ne_nil_of_right_ne_nil _ (List.cons_ne_nil _ _)
      apply hsession.symm
    · rw [Function.update_of_ne hne] at hl
      obtain ⟨m, y, hy, harrived, ht⟩ := h.owned t l hl
      use m, y
      rw [Function.update_of_ne]
      · use hy
      · rintro rfl
        obtain rfl := Option.some.inj (hx.symm.trans hy)
        apply hne
        have heq := hsession.trans ht
        omega

/-! ### Steps -/

theorem respond_large_request (p : Process) (n : ℕ) (ok : Bool) (msg : List UInt8) :
  (p.respond n ok msg).large_request = p.large_request
  := by
  unfold Process.respond
  split
  · rfl
  · split
    · rfl
    · rfl

theorem handle_large_request (p : Process) (fd session : ℕ) (a : Action) :
  (p.handle fd session a).large_request = p.large_request
  := by
  unfold Process.handle
  cases a with
  | invalid => apply respond_large_request
  | lookup name =>
      dsimp only
      split
      · apply respond_large_request
      · apply respond_large_request
  | rawsend addr msg => rfl
  | rawcall addr msg => rfl

variable {body : List UInt8} {q : Request}

theorem data_part (hbody : Unpacks body q) (hpadding : q.padding = true) (p : Process) (fd : ℕ) :
  data p fd body = { p with
    large_request := Function.update p.large_request q.session
      (some { (p.large_request q.session).getD ⟨q.addr, q.is_push, []⟩ with
        msgs := ((p.large_request q.session).getD ⟨q.addr, q.is_push, []⟩).msgs ++ [q.msg] }) }
  := by
  rw [data, hbody]
  apply if_pos hpadding

theorem data_single (hbody : Unpacks body q) (hpadding : q.padding = false)
    (hnone : p.large_request q.session = none) (fd : ℕ) :
  data p fd body = p.handle fd q.session (action q.addr q.is_push (string q.msg))
  := by
  rw [data, hbody]
  dsimp only
  rw [hpadding, hnone]
  rfl

theorem data_last (hbody : Unpacks body q) (hpadding : q.padding = false)
    (hsome : p.large_request q.session = some l) (fd : ℕ) :
  data p fd body =
    { p with large_request := Function.update p.large_request q.session none }.handle fd q.session
      (action l.addr l.is_push (concat (l.msgs ++ [q.msg])))
  := by
  rw [data, hbody]
  dsimp only
  rw [hpadding, hsome]
  rfl

/-- Nothing is forgotten or mixed up. -/
structure Good (st : State) : Prop where
  fresh : ∀ n, st.next ≤ n → st.sending n = none
  session : ∀ peer, 1 ≤ st.node_session peer ∧ st.node_session peer < 2 ^ 31
  wellformed : ∀ n x, st.sending n = some x → Wellformed x
  receiving : Receiving st.process.large_request st.sending
  answering : Answering st.process st.completed none

theorem forall₂_split {γ δ : Type} {R : γ → δ → Prop} {as : List γ} {b : γ} {bs : List γ} {l : List δ}
    (h : List.Forall₂ R (as ++ b :: bs) l) :
  ∃ xs y ys, l = xs ++ y :: ys ∧ List.Forall₂ R as xs ∧ R b y ∧ List.Forall₂ R bs ys
  := by
  induction as generalizing l with
  | nil =>
      obtain ⟨y, ys, hb, hbs, rfl⟩ := List.forall₂_cons_left_iff.mp h
      use [], y, ys, rfl, .nil
  | cons a as ih =>
      obtain ⟨x, l', ha, hl', rfl⟩ := List.forall₂_cons_left_iff.mp h
      obtain ⟨xs, y, ys, rfl, has, hb, hbs⟩ := ih hl'
      use x :: xs, y, ys, rfl, .cons ha has

theorem Unpacks.unique :
  Relator.RightUnique Unpacks
  := fun _ _ _ h h' => Except.ok.inj (h.symm.trans h')

variable {st st' : State} {rest : List (List UInt8)}

/-- What the next frame is unpacked to, among the others. -/
theorem Wellformed.frame (h : Wellformed x) (hrest : x.rest = body :: rest) :
  ∃ qs q qs', List.Forall₂ Unpacks x.arrived qs ∧ Unpacks body q ∧ List.Forall₂ Unpacks rest qs' ∧
    Delivers x.addr x.session x.msg x.is_push (qs ++ q :: qs')
  := by
  obtain ⟨requests, hrequests, hdelivers⟩ := h.delivers
  rw [hrest] at hrequests
  obtain ⟨qs, q, qs', rfl, hqs, hq, hqs'⟩ := forall₂_split hrequests
  use qs, q, qs'

theorem deliver_of_ne (st : State) (n : ℕ) (x : Sending) (body : List UInt8) (hrest : rest ≠ []) :
  deliver st n x body rest = { st with
    process := data st.process x.fd body
    sending := Function.update st.sending n (some { x with arrived := x.arrived ++ [body], rest := rest }) }
  := by
  obtain ⟨r, rest, rfl⟩ := List.exists_cons_of_ne_nil hrest
  rfl

/-- No other request that is incomplete has the session of the next frame. -/
theorem Good.alone (hgood : Good st) (hok : Unmixed st (.deliver n)) (hx : st.sending n = some x)
    (hrest : x.rest = body :: rest) (hbody : Unpacks body q) (hsession : x.arrived ≠ [] → q.session = x.session) :
  ∀ m y, st.sending m = some y → y.arrived ≠ [] → m ≠ n → y.session ≠ q.session
  := by
  intro m y hy harrived hne
  by_cases hfirst : x.arrived = []
  · apply hok x body rest q hx hrest hfirst hbody m y hy harrived hne
  · rw [hsession hfirst]
    intro heq
    apply hne
    apply hgood.receiving.alone m n y x hy hx harrived hfirst heq

/-- The other requests are as they were. -/
theorem Good.of_update (hgood : Good st) {o : Option Sending} (hx : st.sending n = some x)
    (ho : ∀ y ∈ o, Wellformed y) :
  (∀ m, st.next ≤ m → Function.update st.sending n o m = none) ∧
    ∀ m y, Function.update st.sending n o m = some y → Wellformed y
  := by
  constructor
  · intro m hm
    rw [Function.update_of_ne]
    · apply hgood.fresh m hm
    · rintro rfl
      cases (hgood.fresh m hm).symm.trans hx
  · intro m y hy
    rcases eq_or_ne m n with rfl | hne
    · rw [Function.update_self] at hy
      apply ho y hy
    · rw [Function.update_of_ne hne] at hy
      apply hgood.wellformed m y hy

/-- A frame that is the last of its request: the request is handled. -/
theorem Good.complete (hgood : Good st) (hx : st.sending n = some x) {s : ℕ}
    (hsession : x.arrived ≠ [] → (s : ℤ) = x.session) (hpush : x.is_push = false → s = x.session)
    (halone : ∀ m y, st.sending m = some y → y.arrived ≠ [] → m ≠ n → y.session ≠ s)
    (hdata : data st.process x.fd body =
      { st.process with large_request := Function.update st.process.large_request s none }.handle x.fd s
        x.toSent.action) :
  Good (deliver st n x body [])
  := by
  obtain ⟨hfresh, hwellformed⟩ := hgood.of_update (o := none) hx nofun
  constructor
  · apply hfresh
  · apply hgood.session
  · apply hwellformed
  · rw [deliver, hdata]
    dsimp only
    rw [handle_large_request]
    apply hgood.receiving.remove hx hsession halone
  · rw [deliver, hdata]
    apply (hgood.answering.of_large _).handle (hgood.wellformed n x hx).session hpush

/-- The next frame of a request arrives. -/
theorem Good.deliver (hgood : Good st) (hok : Unmixed st (.deliver n)) (hx : st.sending n = some x)
    (hrest : x.rest = body :: rest) :
  Good (deliver st n x body rest)
  := by
  have hwf := hgood.wellformed n x hx
  obtain ⟨qs, q, qs', hqs, hq, hqs', hdelivers⟩ := hwf.frame hrest
  obtain ⟨rfl, rfl, hpadding, haddr, hpush, hmsg, hsession⟩ | ⟨hsession, hfirst, hmore, hlast⟩ :=
    hdelivers.split
  · -- the request is in one frame
    obtain rfl := List.forall₂_nil_right_iff.mp hqs'
    have hnone := List.forall₂_nil_right_iff.mp hqs
    have halone := hgood.alone hok hx hrest hq fun hsome => absurd hnone hsome
    have hempty := hgood.receiving.large_request_eq_none hx hnone halone
    apply hgood.complete hx (fun hsome => absurd hnone hsome) hsession halone
    rw [data_single hq hpadding hempty, haddr, hpush, hmsg, ← hempty, Function.update_eq_self]
    rfl
  · have halone := hgood.alone hok hx hrest hq fun _ => hsession
    rcases eq_or_ne rest [] with rfl | hne
    · -- the last of several frames
      obtain rfl := List.forall₂_nil_left_iff.mp hqs'
      obtain ⟨hpadding, hconcat⟩ := hlast rfl
      have hsome : x.arrived ≠ [] := by
        intro hnone
        rw [hnone] at hqs
        obtain rfl := List.forall₂_nil_left_iff.mp hqs
        apply (hfirst rfl).1 rfl
      obtain ⟨s, requests, hs, hrequests, hlarge⟩ := hgood.receiving.held n x hx hsome
      obtain rfl := Unpacks.unique.forall₂ hrequests hqs
      obtain rfl : s = q.session := by
        have heq := hs.trans hsession.symm
        omega
      rw [List.map_append] at hconcat
      apply hgood.complete hx (fun _ => hsession) (fun _ => hsession) halone
      rw [data_last hq hpadding hlarge]
      dsimp only
      rw [show requests.map Request.msg ++ [q.msg] = requests.map Request.msg ++ [q].map Request.msg from rfl,
        hconcat]
      rfl
    · -- another frame follows
      have hpadding : q.padding = true := by
        apply hmore
        rintro rfl
        apply hne (List.forall₂_nil_right_iff.mp hqs')
      have hwf' : Wellformed { x with arrived := x.arrived ++ [body], rest := rest } := by
        obtain ⟨requests, hrequests, hdelivers⟩ := hwf.delivers
        use hwf.session, hne, requests
        rw [hrest] at hrequests
        rw [List.append_assoc]
        use hrequests
      obtain ⟨hfresh, hwellformed⟩ := hgood.of_update
        (o := some { x with arrived := x.arrived ++ [body], rest := rest }) hx fun y hy => by
          obtain rfl := Option.some.inj hy
          apply hwf'
      rw [deliver_of_ne st n x body hne, data_part hq hpadding]
      constructor
      · apply hfresh
      · apply hgood.session
      · apply hwellformed
      · apply hgood.receiving.part hx hsession hq _ halone
        intro hnone
        rw [hnone] at hqs
        obtain rfl := List.forall₂_nil_left_iff.mp hqs
        apply (hfirst rfl).2
      · apply hgood.answering.of_large

/-! ### Packing -/

/-- A name that can be packed is valid. -/
theorem valid_of_pack {addr : Address} {session : ℤ} {is_push : Bool} {packed : Core.PackedRequest}
    (hsession : 1 ≤ session ∧ session < 2 ^ 31) (hmsg : msg.length < 2 ^ 31)
    (haddr : ∀ n, addr = .number n → 0 ≤ n ∧ n < 2 ^ 32)
    (h : packrequest addr session (some msg) is_push = .ok packed) :
  addr.Valid
  := by
  cases addr with
  | number n => apply haddr n rfl
  | name s =>
      by_contra hnot
      have hlength : s.length < 1 ∨ s.length > 255 := by
        unfold Core.Address.Valid at hnot
        omega
      rw [Core.packrequest_eq hsession.1 hsession.2 hmsg, Core.firstFrame, Core.packreqString] at h
      dsimp only at h
      rw [if_pos hlength] at h
      cases h

/-- The next session is in range. -/
theorem next_session_range {addr : Address} {session : ℤ} {is_push : Bool} {packed : Core.PackedRequest}
    (hsession : 1 ≤ session ∧ session < 2 ^ 31) (hmsg : msg.length < 2 ^ 31)
    (h : packrequest addr session (some msg) is_push = .ok packed) :
  1 ≤ packed.next_session ∧ packed.next_session < 2 ^ 31
  := by
  have hnext : packed.next_session = if LittleEndian.toInt (session + 1) < 0 then 1 else session + 1 := by
    rw [Core.packrequest_eq hsession.1 hsession.2 hmsg] at h
    cases hframe : Core.firstFrame addr session msg is_push with
    | error e =>
        rw [hframe] at h
        cases h
    | ok frame =>
        obtain ⟨frame, multipak⟩ := frame
        rw [hframe] at h
        cases multipak with
        | zero =>
            obtain rfl := Except.ok.inj h
            rfl
        | succ k =>
            cases hparts : Core.packreqMulti (k + 1) session msg with
            | error e =>
                change (Core.packreqMulti (k + 1) session msg >>= _) = _ at h
                rw [hparts] at h
                cases h
            | ok padding =>
                change (Core.packreqMulti (k + 1) session msg >>= _) = _ at h
                rw [hparts] at h
                obtain rfl := Except.ok.inj h
                rfl
  rw [hnext]
  split_ifs with hneg
  · decide
  · rcases eq_or_ne session (2 ^ 31 - 1) with rfl | hne
    · apply absurd _ hneg
      decide
    · omega

/-- The frames of a request that has been packed. -/
theorem wellformed_of_pack {addr : Address} {session : ℤ} {is_push : Bool} {packed : Core.PackedRequest}
    (hsession : 1 ≤ session ∧ session < 2 ^ 31) (hmsg : msg.length < 2 ^ 31)
    (haddr : ∀ n, addr = .number n → 0 ≤ n ∧ n < 2 ^ 32)
    (h : packrequest addr session (some msg) is_push = .ok packed) (fd : ℕ) :
  Wellformed ⟨⟨fd, addr, session, msg, is_push⟩, [], packed.frames.map (List.drop 2)⟩
  := by
  obtain ⟨packed', bodies, requests, hpack, ⟨hframes, -⟩, hrequests, hdelivers⟩ :=
    Core.request_delivered (valid_of_pack hsession hmsg haddr h) hsession.1 hsession.2 hmsg is_push
  obtain rfl := Except.ok.inj (hpack.symm.trans h)
  constructor
  · apply hsession
  · apply List.cons_ne_nil
  · use requests
    have hbodies : (bodies.map Framing.encode).map (List.drop 2) = bodies := by
      rw [List.map_map]
      apply List.map_id
    rw [hframes, hbodies]
    use hrequests

theorem request_ok {addr : Address} {is_push : Bool} {packed : Core.PackedRequest} {peer : ℕ}
    (h : packrequest addr (st.node_session peer) (some msg) is_push = .ok packed) (fd : ℕ) :
  request st fd peer addr msg is_push = { st with
    node_session := Function.update st.node_session peer
      (if is_push ∧ packed.padding = none then st.node_session peer else packed.next_session)
    next := st.next + 1
    sending := Function.update st.sending st.next
      (some ⟨⟨fd, addr, st.node_session peer, msg, is_push⟩, [], packed.frames.map (List.drop 2)⟩) }
  := by
  unfold Clusterd.request
  dsimp only
  rw [h]

theorem request_error {addr : Address} {is_push : Bool} {e : Core.PackError} {peer : ℕ}
    (h : packrequest addr (st.node_session peer) (some msg) is_push = .error e) (fd : ℕ) :
  request st fd peer addr msg is_push = st
  := by
  unfold Clusterd.request
  dsimp only
  rw [h]

theorem step_deliver (hx : st.sending n = some x) (hrest : x.rest = body :: rest) :
  step st (.deliver n) = some (deliver st n x body rest)
  := by
  unfold Clusterd.step
  dsimp only
  rw [hx]
  dsimp only
  rw [hrest]

/-- A request is packed. -/
theorem Good.request (hgood : Good st) {addr : Address} {is_push : Bool}
    (hok : Admitted (.request fd addr msg is_push)) (peer : ℕ) :
  Good (request st fd peer addr msg is_push)
  := by
  obtain ⟨haddr, hmsg⟩ := hok
  have hsession := hgood.session peer
  cases hpack : packrequest addr (st.node_session peer) (some msg) is_push with
  | error e =>
      rw [request_error hpack]
      apply hgood
  | ok packed =>
      rw [request_ok hpack]
      have hwf := wellformed_of_pack hsession hmsg haddr hpack fd
      have hfree := hgood.fresh st.next (Nat.le_refl _)
      constructor
      · intro m hm
        dsimp only at hm ⊢
        rw [Function.update_of_ne (Nat.ne_of_gt hm)]
        apply hgood.fresh m (Nat.le_of_succ_le hm)
      · intro peer'
        dsimp only
        rcases eq_or_ne peer' peer with rfl | hne
        · rw [Function.update_self]
          split_ifs
          · apply hsession
          · apply next_session_range hsession hmsg hpack
        · rw [Function.update_of_ne hne]
          apply hgood.session
      · intro m y hy
        dsimp only at hy
        rcases eq_or_ne m st.next with rfl | hne
        · rw [Function.update_self] at hy
          obtain rfl := Option.some.inj hy
          apply hwf
        · rw [Function.update_of_ne hne] at hy
          apply hgood.wellformed m y hy
      · apply hgood.receiving.request hfree rfl
      · apply hgood.answering

/-- The table is emptied, and requests that have not begun to arrive stay. -/
theorem Good.closed (hgood : Good st) (connection : ℕ → Option ℕ) {sending : ℕ → Option Sending}
    (hsub : ∀ n x, sending n = some x → st.sending n = some x ∧ x.arrived = []) :
  Good { st with process := closed st.process, connection := connection, sending := sending }
  := by
  constructor
  · intro m hm
    by_contra hsome
    obtain ⟨y, hy⟩ := Option.ne_none_iff_exists'.mp hsome
    cases (hgood.fresh m hm).symm.trans (hsub m y hy).1
  · apply hgood.session
  · intro m y hy
    apply hgood.wellformed m y (hsub m y hy).1
  · constructor
    · intro m y hy harrived
      apply absurd (hsub m y hy).2 harrived
    · intro m m' y y' hy _ harrived
      apply absurd (hsub m y hy).2 harrived
    · intro s l hl
      cases hl
  · apply hgood.answering.of_large

theorem good_of_started (h : Started st) :
  Good st
  := by
  constructor
  · intro n _
    apply h.sending
  · intro peer
    rw [h.node_session]
    decide
  · intro n x hx
    cases (h.sending n).symm.trans hx
  · constructor
    · intro n x hx
      cases (h.sending n).symm.trans hx
    · intro m n x y hx
      cases (h.sending m).symm.trans hx
    · intro s l hl
      cases (h.large_request s).symm.trans hl
  · rw [h.completed]
    constructor
    · rw [h.handled]
      apply List.Forall₂.nil
    · intro r hr
      cases hr
    · intro name addr haddr
      cases (h.register_name name).symm.trans haddr
    · intro n hn
      rw [h.waiting] at hn
      cases hn
    · rw [h.waiting]
      apply List.nodup_nil
    · intro a ha
      rw [h.answers] at ha
      cases ha
    · rw [h.answers]
      apply List.nodup_nil
    · intro n hn
      cases hn
    · intro n r hr
      cases hr

theorem Good.step {e : Event} (hgood : Good st) (hadmitted : Admitted e) (hok : Unmixed st e)
    (h : step st e = some st') :
  Good st'
  := by
  cases e with
  | «open» fd peer =>
      rw [Clusterd.step] at h
      split_ifs at h
      obtain rfl := Option.some.inj h
      exact ⟨hgood.fresh, hgood.session, hgood.wellformed, hgood.receiving, hgood.answering⟩
  | request fd addr msg is_push =>
      obtain ⟨peer, -, rfl⟩ := Option.map_eq_some_iff.mp h
      apply hgood.request hadmitted
  | deliver n =>
      cases hx : st.sending n with
      | none =>
          rw [Clusterd.step, hx] at h
          cases h
      | some x =>
          obtain ⟨body, rest, hrest⟩ := List.exists_cons_of_ne_nil (hgood.wellformed n x hx).more
          obtain rfl := Option.some.inj ((step_deliver hx hrest).symm.trans h)
          apply hgood.deliver hok hx hrest
  | close fd =>
      obtain rfl := Option.some.inj h
      apply hgood.closed
      intro n x hx
      obtain ⟨hx, hother⟩ := Option.filter_eq_some_iff.mp hx
      use hx
      by_contra harrived
      rw [hok n x hx harrived] at hother
      simp at hother
  | warning fd =>
      obtain rfl := Option.some.inj h
      apply hgood.closed
      intro n x hx
      use hx
      apply hok n x hx
  | register register_name =>
      obtain rfl := Option.some.inj h
      have h := hgood.answering
      exact ⟨hgood.fresh, hgood.session, hgood.wellformed, hgood.receiving, ⟨h.handled, h.session, hadmitted,
        h.waiting, h.nodup, h.answered, h.once, h.running, h.served⟩⟩
  | reply n ok msg =>
      rw [Clusterd.step] at h
      split_ifs at h with hn
      obtain rfl := Option.some.inj h
      constructor
      · apply hgood.fresh
      · apply hgood.session
      · apply hgood.wellformed
      · dsimp only
        rw [respond_large_request]
        apply hgood.receiving
      · apply (hgood.answering.resume hn).respond
        apply hadmitted

theorem Good.kept (hgood : Good st) :
  Kept st
  := by
  have h := hgood.answering
  constructor
  · apply h.handled
  · apply h.answered
  · apply h.once
  · intro n r hr hpush
    apply (h.served n r hr hpush).resolve_left nofun
  · apply hgood.receiving.held

/-- In every state reached by steps that are admitted and mix nothing up, the requests that are complete have
been handled as they were sent, answers are on the connection and with the session of their request, and what
has come of the other requests is kept. -/
theorem large_requests_kept (h : machine.Reaches (fun st e => Admitted e ∧ Unmixed st e) st) :
  Kept st
  := by
  have hgood : Good st := by
    apply Machine.invariant (fun _ => good_of_started) _ h
    intro st e st' hgood hok hstep
    apply hgood.step hok.1 hok.2 hstep
  apply hgood.kept

/-- The daemon when it starts. -/
def fresh : State where
  process := ⟨fun _ => none, fun _ => none, [], [], []⟩
  node_session _ := 1
  connection _ := none
  next := 0
  sending _ := none
  completed := []

theorem started_fresh :
  Started fresh
  := ⟨fun _ => rfl, fun _ => rfl, rfl, rfl, rfl, fun _ => rfl, fun _ => rfl, fun _ => rfl, rfl⟩

theorem reaches_step {ok : State → Event → Prop} {e : Event} (h : machine.Reaches ok st)
    (hstep : step st e = some st') (hok : ok st e) :
  machine.Reaches ok st'
  := h.step hok hstep

theorem unmixed_of_idle (h : ∀ m y, st.sending m = some y → y.arrived = []) (n : ℕ) :
  Unmixed st (.deliver n)
  := by
  intro x body rest r _ _ _ _ m y hy harrived
  apply absurd (h m y hy) harrived

/-- The frames of a large request: the first and others. -/
theorem pack_large {addr : Address} (haddr : addr.Valid) (hlarge : ¬msg.length < Core.MULTI_PART)
    (hmsg : msg.length < 2 ^ 31) :
  ∃ packed body bodies, packrequest addr 1 (some msg) false = .ok packed ∧
    packed.frames.map (List.drop 2) = body :: bodies ∧ bodies ≠ []
  := by
  have hpos : 0 < msg.length := Nat.lt_of_lt_of_le (by decide) (Nat.le_of_not_lt hlarge)
  obtain ⟨body, hframe, -, -⟩ := Core.firstFrame_large haddr 1 hlarge hmsg false
  obtain ⟨xs, last, bodies, hparts, -, hresults, -⟩ := Core.packreqMulti_frames hpos 1
  refine ⟨_, body, bodies, Core.packrequest_of_large (by decide) (by decide) hmsg hframe hparts, ?_, ?_⟩
  · have hbodies : (bodies.map Framing.encode).map (List.drop 2) = bodies := by
      rw [List.map_map]
      apply List.map_id
    rw [Core.PackedRequest.frames, Option.getD_some, List.map_cons, hbodies]
    rfl
  · rintro rfl
    cases (List.append_eq_nil_iff.mp (List.forall₂_nil_left_iff.mp hresults)).2

theorem unmixed_of_arrived {x : Sending} (hx : st.sending n = some x) (harrived : x.arrived ≠ []) :
  Unmixed st (.deliver n)
  := by
  intro y _ _ _ hy _ hfirst
  obtain rfl := Option.some.inj (hx.symm.trans hy)
  exact absurd hfirst harrived

/-- What is left of a request arrives after its first frame. -/
theorem reaches_rest {bodies : List (List UInt8)} {x : Sending}
    (h : machine.Reaches (fun st e => Admitted e ∧ Unmixed st e) st) (hx : st.sending n = some x)
    (harrived : x.arrived ≠ []) (hrest : x.rest = body :: bodies) :
  ∃ st', machine.Reaches (fun st e => Admitted e ∧ Unmixed st e) st' ∧ st'.completed = st.completed ++ [x.toSent]
  := by
  induction bodies generalizing st x body with
  | nil =>
      have hdelivered := reaches_step h (step_deliver hx hrest) ⟨trivial, unmixed_of_arrived hx harrived⟩
      exact ⟨_, hdelivered, rfl⟩
  | cons body' bodies ih =>
      have hdelivered := reaches_step h (step_deliver hx hrest) ⟨trivial, unmixed_of_arrived hx harrived⟩
      rw [deliver_of_ne _ _ _ _ (List.cons_ne_nil _ _)] at hdelivered
      obtain ⟨st', hst', hcompleted⟩ :=
        ih hdelivered (Function.update_self _ _ _) (List.append_ne_nil_of_left_ne_nil harrived _) rfl
      exact ⟨st', hst', hcompleted⟩

/-- A peer has sent a request, and sends another one between the frames of a large request of the other peer. -/
theorem large_requests_kept_parts :
  ∃ st, st.completed.map (fun r => (r.fd, r.session, r.msg.length)) = [(2, 1, 1), (2, 2, 1), (1, 1, 0x8000)] ∧
    Kept st
  := by
  have haddr (n m : ℤ) (hn : 0 ≤ n ∧ n < 2 ^ 32) (h : Address.number n = .number m) :
      0 ≤ m ∧ m < 2 ^ 32 := by
    obtain rfl := Core.Address.number.inj h
    apply hn
  have hlength : (List.replicate 0x8000 (0 : UInt8)).length = 0x8000 := List.length_replicate
  generalize List.replicate 0x8000 (0 : UInt8) = msg at hlength
  have hmsg : msg.length < 2 ^ 31 := by
    rw [hlength]
    decide
  have hseven : (Address.number 7).Valid := ⟨by decide, by decide⟩
  obtain ⟨packed, body, bodies, hpack, hframes, hmore⟩ := pack_large hseven (by rw [hlength]; decide) hmsg
  have hfirst : ∃ s₀ s₁, machine.exec fresh [.open 1 0, .open 2 1, .request 2 (.number 8) [5] false] = some s₀ ∧
      step s₀ (.deliver 0) = some s₁ ∧ (∀ m y, s₀.sending m = some y → y.arrived = []) ∧
      s₁.connection 1 = some 0 ∧ s₁.connection 2 = some 1 ∧ s₁.node_session 0 = 1 ∧ s₁.node_session 1 = 2 ∧
      s₁.next = 1 ∧ (∀ m, s₁.sending m = none) ∧ s₁.completed = [⟨2, .number 8, 1, [5], false⟩] := by
    refine ⟨_, _, rfl, rfl, ?_, rfl, rfl, rfl, rfl, rfl, ?_, rfl⟩
    · intro m y hy
      match m with
      | 0 =>
          obtain rfl := Option.some.inj hy
          rfl
      | m + 1 => cases hy
    · intro m
      match m with
      | 0 => rfl
      | m + 1 => rfl
  obtain ⟨s₀, s₁, hexec, hstep, hidle, hconnection, hconnection', hsession, hsession', hnext, hnone, hcompleted⟩ :=
    hfirst
  have hs₀ : machine.Reaches (fun st e => Admitted e ∧ Unmixed st e) s₀ := by
    apply Machine.Reaches.exec _ (.init started_fresh) _ hexec
    exact fun _ _ => ⟨⟨trivial, trivial⟩, fun _ _ => ⟨⟨trivial, trivial⟩, fun _ _ =>
      ⟨⟨⟨fun m => haddr 8 m (by decide), by decide⟩, trivial⟩, trivial⟩⟩⟩
  have hs₁ := reaches_step hs₀ hstep ⟨trivial, unmixed_of_idle hidle 0⟩
  -- The large request is packed, and its first frame arrives.
  have hlarge : ∃ s₂, step s₁ (.request 1 (.number 7) msg false) = some s₂ ∧
      s₂.sending = Function.update s₁.sending 1 (some ⟨⟨1, .number 7, 1, msg, false⟩, [], body :: bodies⟩) ∧
      s₂.connection 2 = some 1 ∧ s₂.node_session 1 = 2 ∧ s₂.next = 2 ∧ s₂.completed = s₁.completed := by
    rw [← hsession] at hpack
    have hok := request_ok hpack 1
    rw [hframes, hnext, hsession] at hok
    refine ⟨request s₁ 1 0 (.number 7) msg false, ?_, ?_⟩
    · unfold step
      dsimp only
      rw [hconnection]
      rfl
    · rw [hok]
      exact ⟨rfl, hconnection', hsession', rfl, rfl⟩
  obtain ⟨s₂, hstep₂, hsending₂, hconnection₂, hsession₂, hnext₂, hcompleted₂⟩ := hlarge
  have hs₂ := reaches_step hs₁ hstep₂ ⟨⟨fun m => haddr 7 m (by decide), hmsg⟩, trivial⟩
  have hidle₂ : ∀ m y, s₂.sending m = some y → y.arrived = [] := by
    intro m y hy
    rw [hsending₂] at hy
    rcases eq_or_ne m 1 with rfl | hm
    · rw [Function.update_self] at hy
      rw [← Option.some.inj hy]
    · rw [Function.update_of_ne hm, hnone] at hy
      cases hy
  have hx : s₂.sending 1 = some ⟨⟨1, .number 7, 1, msg, false⟩, [], body :: bodies⟩ := by
    rw [hsending₂, Function.update_self]
  have hthird : ∃ s₃, step s₂ (.deliver 1) = some s₃ ∧
      s₃.sending = Function.update s₂.sending 1 (some ⟨⟨1, .number 7, 1, msg, false⟩, [body], bodies⟩) ∧
      s₃.connection 2 = some 1 ∧ s₃.node_session 1 = 2 ∧ s₃.next = 2 ∧ s₃.completed = s₂.completed := by
    refine ⟨_, step_deliver hx rfl, ?_⟩
    rw [deliver_of_ne _ _ _ _ hmore]
    exact ⟨rfl, hconnection₂, hsession₂, hnext₂, rfl⟩
  obtain ⟨s₃, hstep₃, hsending₃, hconnection₃, hsession₃, hnext₃, hcompleted₃⟩ := hthird
  have hs₃ := reaches_step hs₂ hstep₃ ⟨trivial, unmixed_of_idle hidle₂ 1⟩
  -- The other peer sends its second request, in one frame.
  obtain ⟨packed', frame, hpack', hframes', hunpack'⟩ : ∃ packed' frame,
      packrequest (.number 8) 2 (some [6]) false = .ok packed' ∧ packed'.frames.map (List.drop 2) = [frame] ∧
      unpackrequest frame = .ok ⟨some (.number 8), 2, .bytes [6], false, false⟩ := ⟨_, _, rfl, rfl, rfl⟩
  have hsmall : ∃ s₄, step s₃ (.request 2 (.number 8) [6] false) = some s₄ ∧
      s₄.sending = Function.update s₃.sending 2 (some ⟨⟨2, .number 8, 2, [6], false⟩, [], [frame]⟩) ∧
      s₄.completed = s₃.completed := by
    rw [← hsession₃] at hpack'
    have hok := request_ok hpack' 2
    rw [hframes', hnext₃, hsession₃] at hok
    refine ⟨request s₃ 2 1 (.number 8) [6] false, ?_, ?_⟩
    · unfold step
      dsimp only
      rw [hconnection₃]
      rfl
    · rw [hok]
      exact ⟨rfl, rfl⟩
  obtain ⟨s₄, hstep₄, hsending₄, hcompleted₄⟩ := hsmall
  have hs₄ := reaches_step hs₃ hstep₄ ⟨⟨fun m => haddr 8 m (by decide), by decide⟩, trivial⟩
  have hx₄ : s₄.sending 2 = some ⟨⟨2, .number 8, 2, [6], false⟩, [], [frame]⟩ := by
    rw [hsending₄, Function.update_self]
  have hunmixed : Unmixed s₄ (.deliver 2) := by
    intro x body' rest r hx' hrest _ hunpack m y hy harrived hm
    obtain rfl := Option.some.inj (hx₄.symm.trans hx')
    obtain ⟨rfl, rfl⟩ := List.cons.inj hrest
    obtain rfl := Except.ok.inj (hunpack'.symm.trans hunpack)
    rw [hsending₄, Function.update_of_ne hm, hsending₃] at hy
    rcases eq_or_ne m 1 with rfl | hm'
    · rw [Function.update_self] at hy
      rw [← Option.some.inj hy]
      change (1 : ℤ) ≠ (2 : ℕ)
      decide
    · rw [Function.update_of_ne hm'] at hy
      exact absurd (hidle₂ m y hy) harrived
  have hs₅ := reaches_step hs₄ (step_deliver hx₄ rfl) ⟨trivial, hunmixed⟩
  -- Then the rest of the large request arrives.
  obtain ⟨body', bodies', rfl⟩ := List.exists_cons_of_ne_nil hmore
  have hx₅ : (deliver s₄ 2 ⟨⟨2, .number 8, 2, [6], false⟩, [], [frame]⟩ frame []).sending 1 =
      some ⟨⟨1, .number 7, 1, msg, false⟩, [body], body' :: bodies'⟩ := by
    change Function.update s₄.sending 2 none 1 = _
    rw [Function.update_of_ne (by decide), hsending₄, Function.update_of_ne (by decide), hsending₃,
      Function.update_self]
  obtain ⟨s₆, hs₆, hcompleted₆⟩ := reaches_rest hs₅ hx₅ (List.cons_ne_nil _ _) rfl
  refine ⟨s₆, ?_, large_requests_kept hs₆⟩
  change s₆.completed = (s₄.completed ++ [_]) ++ [_] at hcompleted₆
  rw [hcompleted₆, hcompleted₄, hcompleted₃, hcompleted₂, hcompleted]
  simp [hlength]

/-- A peer has sent the first frame of a large request when another one disconnects: what has come is
forgotten. -/
theorem request_forgotten :
  ∃ st, machine.Reaches (fun _ e => Admitted e) st ∧ ¬Kept st
  := by
  have haddr : (Address.number 7).Valid := by
    constructor
    · decide
    · decide
  have hlength : (List.replicate 0x8000 (0 : UInt8)).length = 0x8000 := List.length_replicate
  generalize List.replicate 0x8000 (0 : UInt8) = msg at hlength
  have hmsg : msg.length < 2 ^ 31 := by
    rw [hlength]
    decide
  obtain ⟨packed, body, bodies, hpack, hframes, hmore⟩ := pack_large haddr (by rw [hlength]; decide) hmsg
  have hopen : ∃ s₀, machine.exec fresh [.open 1 0, .open 2 1] = some s₀ ∧ s₀.connection 1 = some 0 ∧
      s₀.node_session 0 = 1 ∧ s₀.next = 0 := ⟨_, rfl, rfl, rfl, rfl⟩
  obtain ⟨s₀, hexec, hconnection, hsession, hnext⟩ := hopen
  have hs₀ : machine.Reaches (fun _ e => Admitted e) s₀ := by
    apply Machine.Reaches.exec _ (.init started_fresh) _ hexec
    exact fun _ _ => ⟨trivial, fun _ _ => ⟨trivial, trivial⟩⟩
  have hadmitted : Admitted (.request 1 (.number 7) msg false) := by
    refine ⟨?_, hmsg⟩
    intro n hn
    obtain rfl := Core.Address.number.inj hn
    decide
  have hrequest : step s₀ (.request 1 (.number 7) msg false) =
      some (request s₀ 1 0 (.number 7) msg false) := by
    unfold step
    dsimp only
    rw [hconnection]
    rfl
  rw [← hsession] at hpack
  rw [request_ok hpack, hframes] at hrequest
  have hs₁ := reaches_step hs₀ hrequest hadmitted
  have hs₂ := reaches_step hs₁ (step_deliver (Function.update_self _ _ _) rfl) trivial
  rw [deliver_of_ne _ _ _ _ hmore] at hs₂
  have hs₃ := reaches_step (e := .close 2) hs₂ rfl trivial
  refine ⟨_, hs₃, fun hkept => ?_⟩
  have hheld := hkept.held s₀.next ⟨⟨1, .number 7, s₀.node_session 0, msg, false⟩, [body], bodies⟩
  dsimp only at hheld
  rw [Function.update_self] at hheld
  obtain ⟨s, requests, -, -, hlarge⟩ := hheld rfl (List.cons_ne_nil _ _)
  cases hlarge

end Clusterd

end Cluster
