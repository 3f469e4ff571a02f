import FWServer.Skynet.MsgserverRetire

/-!
# How long responses are cached

A response that has been sent stays in the cache of its user until at least `expired_number` others have been sent to
that user, unless the client uses its session again on the same version; and of the responses that have been sent a
cache has fewer than twice `expired_number`.  While a response is cached, the request that it answers is not handled
again (`cached_until_expired`).
-/

namespace Skynet

namespace Msgserver

variable {N : Type} {s s' : State N} {conf : Conf N}

/-! ### What is kept -/

/-- The index of a user does not reach the one at which responses are retired. -/
def Bounded (conf : Conf N) (s : State N) : Prop :=
  0 < conf.expired_number → ∀ u < s.userCount, (s.users u).index < conf.expired_number * 2

/-- The response `r`, in the cache of the user `u` for the session `k`, has been sent, and it is the bytes `b`.  When
it was sent last, `place` responses of the user or more had been sent. -/
structure Holds (s : State N) (u k r : ℕ) (b : List UInt8) (place : ℕ) : Prop where
  lookup : (s.users u).response.lookup k = some r
  fd : (s.responses r).fd = none
  response : (s.responses r).response = some b
  place_le : place ≤ (s.responses r).place

/-- The invariants hold in `s'`.  Responses that have been sent are still there, for the sessions in `kept`, unless
enough others of the user have been sent since. -/
structure Goes (conf : Conf N) (kept : ℕ → ℕ → Prop) (s s' : State N) : Prop where
  cached : Cached s'
  bounded : Bounded conf s'
  userCount : s.userCount ≤ s'.userCount
  answered : ∀ u < s.userCount, (s.users u).answered ≤ (s'.users u).answered
  holds : ∀ u k r b place, kept u k → Holds s u k r b place →
    Holds s' u k r b place ∨ place + conf.expired_number < (s'.users u).answered

variable {kept : ℕ → ℕ → Prop}

theorem Goes.trans {t : State N} (hs : Cached s) (h : Goes conf kept s t) (h' : Goes conf kept t s') :
  Goes conf kept s s'
  := by
  constructor
  · exact h'.cached
  · exact h'.bounded
  · exact h.userCount.trans h'.userCount
  · intro u hu
    exact (h.answered u hu).trans (h'.answered u (Nat.lt_of_lt_of_le hu h.userCount))
  · intro u k r b place hkept hholds
    have hu := (hs.belongs u k r hholds.lookup).user_lt
    obtain hholds | hexpired := h.holds u k r b place hkept hholds
    · exact h'.holds u k r b place hkept hholds
    · exact .inr (Nat.lt_of_lt_of_le hexpired (h'.answered u (Nat.lt_of_lt_of_le hu h.userCount)))

/-! ### Steps that send no response -/

/-- No response is sent.  What is in a cache was there before, or has not been sent; and the responses that have been
sent, for the sessions in `kept`, are left alone. -/
structure Calm (kept : ℕ → ℕ → Prop) (s s' : State N) : Prop where
  userCount : s.userCount ≤ s'.userCount
  responseCount : s.responseCount ≤ s'.responseCount
  index : ∀ u < s.userCount, (s'.users u).index = (s.users u).index
  index_new : ∀ u < s'.userCount, s.userCount ≤ u → (s'.users u).index = 0
  answered : ∀ u < s.userCount, (s'.users u).answered = (s.users u).answered
  entry : ∀ u k r, (s'.users u).response.lookup k = some r →
    (s.users u).response.lookup k = some r ∧ s'.responses r = s.responses r ∨
      Belongs s' u k r ∧ (s'.responses r).fd ≠ none
  awaited : ∀ r, (s'.responses r).waiting = true → Awaited s' r
  kept : ∀ u k r, kept u k → (s.users u).response.lookup k = some r → (s.responses r).fd = none →
    (s.responses r).response ≠ none → (s'.users u).response.lookup k = some r ∧ s'.responses r = s.responses r

theorem Calm.goes (h : Calm kept s s') (hs : Cached s) (hbounded : Bounded conf s) :
  Goes conf kept s s'
  := by
  have hsent : ∀ u k r, (s'.users u).response.lookup k = some r → (s'.responses r).fd = none →
      (s.users u).response.lookup k = some r ∧ s'.responses r = s.responses r := by
    intro u k r hr hfd
    obtain hold | ⟨-, hunsent⟩ := h.entry u k r hr
    · exact hold
    · exact absurd hfd hunsent
  constructor
  · constructor
    · intro u k r hr
      obtain ⟨hlookup, heq⟩ | ⟨hbelongs, -⟩ := h.entry u k r hr
      · have hbelongs := hs.belongs u k r hlookup
        constructor
        · exact Nat.lt_of_lt_of_le hbelongs.user_lt h.userCount
        · exact Nat.lt_of_lt_of_le hbelongs.lt h.responseCount
        · rw [heq]
          exact hbelongs.user
        · rw [heq]
          exact hbelongs.session
      · exact hbelongs
    · exact h.awaited
    · intro u k r hr hfd
      obtain ⟨hlookup, heq⟩ := hsent u k r hr hfd
      have hu := (hs.belongs u k r hlookup).user_lt
      rw [heq] at hfd
      have hold := hs.older u k r hlookup hfd
      constructor
      · rw [heq, h.index u hu]
        exact hold.index_lt
      · rw [heq, h.answered u hu]
        exact hold.place_lt
      · rw [heq, h.index u hu, h.answered u hu]
        exact hold.since
    · intro u k r k' r' hr hr' hfd hfd' hindex
      obtain ⟨hlookup, heq⟩ := hsent u k r hr hfd
      obtain ⟨hlookup', heq'⟩ := hsent u k' r' hr' hfd'
      rw [heq] at hfd hindex
      rw [heq'] at hfd' hindex
      exact hs.distinct u k r k' r' hlookup hlookup' hfd hfd' hindex
  · intro hpos u hu
    obtain hold | hnew := Nat.lt_or_ge u s.userCount
    · rw [h.index u hold]
      exact hbounded hpos u hold
    · rw [h.index_new u hu hnew]
      omega
  · exact h.userCount
  · intro u hu
    exact (h.answered u hu).ge
  · intro u k r b place hkept hholds
    left
    have hthere : (s.responses r).response ≠ none := by
      rw [hholds.response]
      exact Option.some_ne_none b
    obtain ⟨hlookup, heq⟩ := h.kept u k r hkept hholds.lookup hholds.fd hthere
    constructor
    · exact hlookup
    · rw [heq]
      exact hholds.fd
    · rw [heq]
      exact hholds.response
    · rw [heq]
      exact hholds.place_le

/-- Nothing happens to the caches. -/
structure Untouched (s s' : State N) : Prop where
  response : ∀ u, (s'.users u).response = (s.users u).response
  index : ∀ u, (s'.users u).index = (s.users u).index
  answered : ∀ u, (s'.users u).answered = (s.users u).answered
  userCount : s'.userCount = s.userCount
  responses : s'.responses = s.responses
  responseCount : s'.responseCount = s.responseCount

theorem Untouched.calm (h : Untouched s s') (hs : Cached s) :
  Calm kept s s'
  := by
  constructor
  · exact h.userCount.ge
  · exact h.responseCount.ge
  · exact fun u _ => h.index u
  · intro u hu hnew
    rw [h.userCount] at hu
    exact absurd hu (Nat.not_lt.mpr hnew)
  · exact fun u _ => h.answered u
  · intro u k r hr
    rw [h.response] at hr
    exact .inl ⟨hr, congrFun h.responses r⟩
  · intro r hr
    rw [h.responses] at hr
    have hawaited := hs.awaited r hr
    constructor
    · rw [h.responseCount]
      exact hawaited.lt
    · rw [h.responses]
      exact hawaited.fd
    · rw [h.responses]
      exact hawaited.response
  · intro u k r _ hr _ _
    rw [h.response]
    exact ⟨hr, congrFun h.responses r⟩

/-- A field of a user is assigned that is not about its cache. -/
theorem Untouched.setUser (s : State N) {u : ℕ} {user : User N} (hresponse : user.response = (s.users u).response)
    (hindex : user.index = (s.users u).index) (hanswered : user.answered = (s.users u).answered) :
  Untouched s (s.setUser u user)
  := by
  refine ⟨fun v => ?_, fun v => ?_, fun v => ?_, rfl, rfl, rfl⟩ <;> obtain rfl | hv := eq_or_ne v u
  · rw [State.setUser_users_self, hresponse]
  · rw [State.setUser_users_of_ne s hv]
  · rw [State.setUser_users_self, hindex]
  · rw [State.setUser_users_of_ne s hv]
  · rw [State.setUser_users_self, hanswered]
  · rw [State.setUser_users_of_ne s hv]

theorem Untouched.refuse (s : State N) (fd : ℕ) :
  Untouched s (s.refuse fd)
  := by
  obtain ⟨gate, out, heq⟩ := s.refuse_eq fd
  rw [heq]
  exact ⟨fun _ => rfl, fun _ => rfl, fun _ => rfl, rfl, rfl, rfl⟩

theorem Untouched.logout (s : State N) (username : List UInt8) :
  Untouched s (s.logout username)
  := by
  cases hu : s.user_online username with
  | none =>
      rw [State.logout, hu]
      exact ⟨fun _ => rfl, fun _ => rfl, fun _ => rfl, rfl, rfl, rfl⟩
  | some u =>
      obtain ⟨gate, out, heq⟩ := s.logout_eq hu
      rw [heq]
      exact ⟨fun _ => rfl, fun _ => rfl, fun _ => rfl, rfl, rfl, rfl⟩

theorem Untouched.disconnect (s : State N) (fd : ℕ) :
  Untouched s (s.disconnect fd)
  := by
  rw [State.disconnect]
  dsimp only
  split
  · exact ⟨fun _ => rfl, fun _ => rfl, fun _ => rfl, rfl, rfl, rfl⟩
  · next c _ =>
      have h : Untouched s (s.setUser c { s.users c with fd := none }) := Untouched.setUser s rfl rfl rfl
      exact ⟨h.response, h.index, h.answered, rfl, rfl, rfl⟩

theorem Untouched.auth [LinearOrder N] (s : State N) (conf : Conf N) (fd : ℕ) (addr : String) (msg : List UInt8) :
  Untouched s (s.auth conf fd addr msg)
  := by
  obtain ⟨gate, out, heq⟩ | ⟨hello, u, idx, out, -, -, -, -, -, heq⟩ := s.auth_eq conf fd addr msg
  · rw [heq]
    exact ⟨fun _ => rfl, fun _ => rfl, fun _ => rfl, rfl, rfl, rfl⟩
  · rw [heq]
    have h : Untouched s (s.setUser u { s.users u with version := idx, fd := some fd, ip := some addr }) :=
      Untouched.setUser s rfl rfl rfl
    exact ⟨h.response, h.index, h.answered, rfl, rfl, rfl⟩

/-- A user that logs in has an empty cache. -/
theorem calm_login [Zero N] (hs : Cached s) (username secret : List UInt8) :
  Calm kept s (s.login username secret)
  := by
  rw [State.login]
  split
  · exact Untouched.calm ⟨fun _ => rfl, fun _ => rfl, fun _ => rfl, rfl, rfl, rfl⟩ hs
  · constructor
    · exact Nat.le_succ _
    · exact le_rfl
    · intro u hu
      dsimp only
      rw [Function.update_of_ne (Nat.ne_of_lt hu)]
    · intro u hu hnew
      dsimp only at hu ⊢
      obtain rfl : u = s.userCount := by omega
      rw [Function.update_self]
    · intro u hu
      dsimp only
      rw [Function.update_of_ne (Nat.ne_of_lt hu)]
    · intro u k r hr
      dsimp only at hr
      obtain rfl | hu := eq_or_ne u s.userCount
      · rw [Function.update_self] at hr
        cases hr
      · rw [Function.update_of_ne hu] at hr
        exact .inl ⟨hr, rfl⟩
    · intro r hr
      have hawaited := hs.awaited r hr
      exact ⟨hawaited.lt, hawaited.fd, hawaited.response⟩
    · intro u k r _ hr _ _
      have hu := (hs.belongs u k r hr).user_lt
      dsimp only
      rw [Function.update_of_ne (Nat.ne_of_lt hu)]
      exact ⟨hr, rfl⟩

/-- A response that has not been sent, or is not there, is changed, and still has not been sent. -/
theorem calm_setResponse (hs : Cached s) {r : ℕ} {p : Response N} (hfd : p.fd ≠ none)
    (huser : p.user = (s.responses r).user) (hsession : p.session = (s.responses r).session)
    (hunsent : (s.responses r).fd ≠ none ∨ (s.responses r).response = none)
    (hwaiting : p.waiting = true → r < s.responseCount ∧ p.response = none) :
  Calm kept s (s.setResponse r p)
  := by
  constructor
  · exact le_rfl
  · exact le_rfl
  · exact fun _ _ => rfl
  · intro u hu hnew
    exact absurd hu (Nat.not_lt.mpr hnew)
  · exact fun _ _ => rfl
  · intro u k r' hr
    obtain rfl | hne := eq_or_ne r' r
    · right
      have hbelongs := hs.belongs u k r' hr
      refine ⟨⟨hbelongs.user_lt, hbelongs.lt, ?_, ?_⟩, ?_⟩
      · rw [State.setResponse_responses_self, huser]
        exact hbelongs.user
      · rw [State.setResponse_responses_self, hsession]
        exact hbelongs.session
      · rwa [State.setResponse_responses_self]
    · exact .inl ⟨hr, s.setResponse_responses_of_ne hne p⟩
  · intro r' hr
    obtain rfl | hne := eq_or_ne r' r
    · rw [State.setResponse_responses_self] at hr
      obtain ⟨hlt, hresponse⟩ := hwaiting hr
      refine ⟨hlt, ?_, ?_⟩
      · rwa [State.setResponse_responses_self]
      · rwa [State.setResponse_responses_self]
    · rw [s.setResponse_responses_of_ne hne] at hr
      have hawaited := hs.awaited r' hr
      refine ⟨hawaited.lt, ?_, ?_⟩
      · rw [s.setResponse_responses_of_ne hne]
        exact hawaited.fd
      · rw [s.setResponse_responses_of_ne hne]
        exact hawaited.response
  · intro u k r' _ hr hnone hthere
    obtain rfl | hne := eq_or_ne r' r
    · exact absurd hunsent (not_or.mpr ⟨not_not.mpr hnone, hthere⟩)
    · exact ⟨hr, s.setResponse_responses_of_ne hne p⟩

/-- A session is taken out of a cache. -/
theorem calm_erase (hs : Cached s) {u k : ℕ} (hkept : ¬ kept u k) :
  Calm kept s (s.setUser u { s.users u with response := (s.users u).response.erase k })
  := by
  have hself := s.setUser_users_self u { s.users u with response := (s.users u).response.erase k }
  have hother : ∀ v, v ≠ u →
      (s.setUser u { s.users u with response := (s.users u).response.erase k }).users v = s.users v :=
    fun v hv => s.setUser_users_of_ne hv _
  constructor
  · exact le_rfl
  · exact le_rfl
  · intro v _
    obtain rfl | hv := eq_or_ne v u
    · rw [hself]
    · rw [hother v hv]
  · intro v hv hnew
    exact absurd hv (Nat.not_lt.mpr hnew)
  · intro v _
    obtain rfl | hv := eq_or_ne v u
    · rw [hself]
    · rw [hother v hv]
  · intro v k' r hr
    left
    obtain rfl | hv := eq_or_ne v u
    · rw [hself] at hr
      dsimp only at hr
      obtain rfl | hk := eq_or_ne k' k
      · rw [AList.lookup_erase] at hr
        cases hr
      · rw [AList.lookup_erase_ne hk] at hr
        exact ⟨hr, rfl⟩
    · rw [hother v hv] at hr
      exact ⟨hr, rfl⟩
  · intro r hr
    have hawaited := hs.awaited r hr
    exact ⟨hawaited.lt, hawaited.fd, hawaited.response⟩
  · intro v k' r hk' hr _ _
    obtain rfl | hv := eq_or_ne v u
    · have hk : k' ≠ k := by
        rintro rfl
        exact hkept hk'
      rw [hself]
      dsimp only
      rw [AList.lookup_erase_ne hk]
      exact ⟨hr, rfl⟩
    · rw [hother v hv]
      exact ⟨hr, rfl⟩

/-- The handler is called for a session that is not in the cache. -/
theorem calm_call (hs : Cached s) {u fd k : ℕ} (message : List UInt8) (hu : u < s.userCount)
    (hfree : (s.users u).response.lookup k = none) :
  Calm kept s (s.call u fd k message)
  := by
  rw [State.call]
  generalize hs' : State.mk _ _ _ _ _ _ _ _ _ = s'
  have hself : s'.users u =
      { s.users u with response := (s.users u).response.insert k s.responseCount } := by
    rw [← hs']
    exact s.setUser_users_self u _
  have hother : ∀ v, v ≠ u → s'.users v = s.users v := by
    intro v hv
    rw [← hs']
    exact s.setUser_users_of_ne hv _
  have hnew : s'.responses s.responseCount =
      ⟨some fd, none, none, 0, u, k, fd, true, 0⟩ := by
    rw [← hs']
    exact State.setResponse_responses_self _ _ _
  have hold : ∀ r, r ≠ s.responseCount → s'.responses r = s.responses r := by
    intro r hr
    rw [← hs']
    exact State.setResponse_responses_of_ne _ hr _
  have hcount : s'.userCount = s.userCount := by
    rw [← hs']
    rfl
  have hresponseCount : s'.responseCount = s.responseCount + 1 := by rw [← hs']
  constructor
  · exact hcount.ge
  · omega
  · intro v _
    obtain rfl | hv := eq_or_ne v u
    · rw [hself]
    · rw [hother v hv]
  · intro v hv hle
    omega
  · intro v _
    obtain rfl | hv := eq_or_ne v u
    · rw [hself]
    · rw [hother v hv]
  · intro v k' r hr
    have hbefore (hlookup : (s.users v).response.lookup k' = some r) :
        (s.users v).response.lookup k' = some r ∧ s'.responses r = s.responses r :=
      ⟨hlookup, hold r (Nat.ne_of_lt (hs.belongs v k' r hlookup).lt)⟩
    obtain rfl | hv := eq_or_ne v u
    · rw [hself] at hr
      dsimp only at hr
      obtain rfl | hk := eq_or_ne k' k
      · rw [AList.lookup_insert] at hr
        obtain rfl := Option.some.inj hr
        right
        refine ⟨⟨?_, ?_, ?_, ?_⟩, ?_⟩
        · rwa [hcount]
        · rw [hresponseCount]
          exact Nat.lt_succ_self _
        · rw [hnew]
        · rw [hnew]
        · rw [hnew]
          exact Option.some_ne_none fd
      · rw [AList.lookup_insert_ne hk] at hr
        exact .inl (hbefore hr)
    · rw [hother v hv] at hr
      exact .inl (hbefore hr)
  · intro r hr
    obtain rfl | hne := eq_or_ne r s.responseCount
    · refine ⟨?_, ?_, ?_⟩
      · rw [hresponseCount]
        exact Nat.lt_succ_self _
      · rw [hnew]
        exact Option.some_ne_none fd
      · rw [hnew]
    · rw [hold r hne] at hr
      have hawaited := hs.awaited r hr
      refine ⟨?_, ?_, ?_⟩
      · rw [hresponseCount]
        exact Nat.lt_succ_of_lt hawaited.lt
      · rw [hold r hne]
        exact hawaited.fd
      · rw [hold r hne]
        exact hawaited.response
  · intro v k' r _ hr _ _
    refine ⟨?_, hold r (Nat.ne_of_lt (hs.belongs v k' r hr).lt)⟩
    obtain rfl | hv := eq_or_ne v u
    · have hk : k' ≠ k := by
        rintro rfl
        rw [hfree] at hr
        cases hr
      rw [hself]
      dsimp only
      rwa [AList.lookup_insert_ne hk]
    · rwa [hother v hv]

/-! ### Answers -/

/-- What `t` is after an answer in `s` to the user `u` with the response `p`, which is under the reference `r`, before
responses are retired. -/
structure Answered (s t : State N) (u r : ℕ) (p : Response N) : Prop where
  user : t.users u = { s.users u with index := (s.users u).index + 1, answered := (s.users u).answered + 1 }
  user_of_ne : ∀ v, v ≠ u → t.users v = s.users v
  response : t.responses r = { p with fd := none, place := (s.users u).answered }
  response_of_ne : ∀ r', r' ≠ r → t.responses r' = s.responses r'
  userCount : t.userCount = s.userCount
  responseCount : t.responseCount = s.responseCount

theorem answered_answer (s : State N) (conf : Conf N) (u r : ℕ) (p : Response N) :
  ∃ t, Answered s t u r p ∧ (s.setResponse r p).answer conf u r = t.retire_response conf u
  := by
  obtain ⟨out, heq⟩ := (s.setResponse r p).answer_eq conf u r
  refine ⟨_, ?_, heq⟩
  constructor
  · exact State.setUser_users_self _ u _
  · exact fun v hv => State.setUser_users_of_ne _ hv _
  · rw [State.setResponse_responses_self, State.setResponse_responses_self]
    rfl
  · intro r' hr
    rw [State.setResponse_responses_of_ne _ hr]
    exact State.setResponse_responses_of_ne s hr p
  · rfl
  · rfl

section Answered

variable {t : State N} {u r : ℕ} {p : Response N}

theorem Answered.cache (h : Answered s t u r p) (v : ℕ) :
  (t.users v).response = (s.users v).response
  := by
  obtain rfl | hv := eq_or_ne v u
  · rw [h.user]
  · rw [h.user_of_ne v hv]

/-- The response that is answered with is the one that was sent last. -/
theorem Answered.older (h : Answered s t u r p) (hs : Cached s) (huser : (s.responses r).user = u)
    (hindex : p.index = (s.users u).index) {v k r' : ℕ} (hr : (t.users v).response.lookup k = some r')
    (hfd : (t.responses r').fd = none) :
  Older t v r'
  := by
  rw [h.cache] at hr
  have hbelongs := hs.belongs v k r' hr
  obtain rfl | hne := eq_or_ne r' r
  · obtain rfl : v = u := hbelongs.user.symm.trans huser
    constructor
    · rw [h.response, h.user, ← hindex]
      exact Nat.lt_succ_self _
    · rw [h.response, h.user]
      exact Nat.lt_succ_self _
    · rw [h.response, h.user]
      dsimp only
      omega
  · rw [h.response_of_ne r' hne] at hfd
    have hold := hs.older v k r' hr hfd
    obtain ⟨hlt, hplace, hsince⟩ := hold
    obtain rfl | hv := eq_or_ne v u
    · constructor
      · rw [h.response_of_ne r' hne, h.user]
        exact Nat.lt_succ_of_lt hlt
      · rw [h.response_of_ne r' hne, h.user]
        exact Nat.lt_succ_of_lt hplace
      · rw [h.response_of_ne r' hne, h.user]
        dsimp only
        omega
    · constructor
      · rwa [h.response_of_ne r' hne, h.user_of_ne v hv]
      · rwa [h.response_of_ne r' hne, h.user_of_ne v hv]
      · rwa [h.response_of_ne r' hne, h.user_of_ne v hv]

/-- The index of the response that is answered with is above those of the others. -/
theorem Answered.index_lt (h : Answered s t u r p) (hs : Cached s) (huser : (s.responses r).user = u)
    (hindex : p.index = (s.users u).index) {v k k' r' : ℕ} (hr : (s.users v).response.lookup k = some r)
    (hr' : (s.users v).response.lookup k' = some r') (hne : r' ≠ r) (hfd : (t.responses r').fd = none) :
  (t.responses r').index < (t.responses r).index
  := by
  obtain rfl : v = u := (hs.belongs v k r hr).user.symm.trans huser
  rw [h.response_of_ne r' hne] at hfd ⊢
  rw [h.response]
  exact Nat.lt_of_lt_of_eq (hs.older v k' r' hr' hfd).index_lt hindex.symm

theorem Answered.cached (h : Answered s t u r p) (hs : Cached s) (huser : (s.responses r).user = u)
    (hindex : p.index = (s.users u).index) (huser' : p.user = (s.responses r).user)
    (hsession : p.session = (s.responses r).session) (hwaiting : p.waiting = false) :
  Cached t
  := by
  constructor
  · intro v k r' hr
    rw [h.cache] at hr
    obtain ⟨hv, hlt, hresponse, hk⟩ := hs.belongs v k r' hr
    obtain rfl | hne := eq_or_ne r' r
    · constructor
      · rwa [h.userCount]
      · rwa [h.responseCount]
      · rw [h.response]
        exact huser'.trans hresponse
      · rw [h.response]
        exact hsession.trans hk
    · constructor
      · rwa [h.userCount]
      · rwa [h.responseCount]
      · rwa [h.response_of_ne r' hne]
      · rwa [h.response_of_ne r' hne]
  · intro r' hr
    obtain rfl | hne := eq_or_ne r' r
    · rw [h.response] at hr
      exact absurd hr (by rw [hwaiting]; exact Bool.false_ne_true)
    · rw [h.response_of_ne r' hne] at hr
      obtain ⟨hlt, hfd, hresponse⟩ := hs.awaited r' hr
      constructor
      · rwa [h.responseCount]
      · rwa [h.response_of_ne r' hne]
      · rwa [h.response_of_ne r' hne]
  · intro v k r' hr hfd
    exact h.older hs huser hindex hr hfd
  · intro v k r₁ k' r₂ hr₁ hr₂ hfd₁ hfd₂ heq
    rw [h.cache] at hr₁ hr₂
    obtain rfl | hne₁ := eq_or_ne r₁ r
    · obtain rfl | hne₂ := eq_or_ne r₂ r₁
      · rfl
      · exact absurd heq (h.index_lt hs huser hindex hr₁ hr₂ hne₂ hfd₂).ne'
    · obtain rfl | hne₂ := eq_or_ne r₂ r
      · exact absurd heq (h.index_lt hs huser hindex hr₂ hr₁ hne₁ hfd₁).ne
      · rw [h.response_of_ne r₁ hne₁] at hfd₁ heq
        rw [h.response_of_ne r₂ hne₂] at hfd₂ heq
        exact hs.distinct v k r₁ k' r₂ hr₁ hr₂ hfd₁ hfd₂ heq

/-- What has been sent stays in the cache; that it has been sent again does no harm. -/
theorem Answered.holds (h : Answered s t u r p) (hs : Cached s) (huser : (s.responses r).user = u)
    (hsame : ∀ b, (s.responses r).fd = none → (s.responses r).response = some b → p.response = some b)
    {v k r' place : ℕ} {b : List UInt8} (hholds : Holds s v k r' b place) :
  Holds t v k r' b place
  := by
  obtain ⟨hlookup, hfd, hresponse, hplace⟩ := hholds
  obtain rfl | hne := eq_or_ne r' r
  · obtain rfl : v = u := (hs.belongs v k r' hlookup).user.symm.trans huser
    have hlt := (hs.older v k r' hlookup hfd).place_lt
    constructor
    · rwa [h.cache]
    · rw [h.response]
    · rw [h.response]
      exact hsame b hfd hresponse
    · rw [h.response]
      exact hplace.trans hlt.le
  · constructor
    · rwa [h.cache]
    · rwa [h.response_of_ne r' hne]
    · rwa [h.response_of_ne r' hne]
    · rwa [h.response_of_ne r' hne]

end Answered

/-- A response that has been sent is retired only when many others have been sent since. -/
theorem retire_holds (hs : Cached s) {u v k r place : ℕ} {b : List UInt8} (hholds : Holds s v k r b place) :
  Holds (s.retire_response conf u) v k r b place ∨ place + conf.expired_number < (s.users v).answered
  := by
  by_cases hdue : conf.expired_number * 2 ≤ (s.users u).index
  · obtain ⟨x, hx, heq⟩ := hs.retire_eq hdue
    obtain ⟨index, hfields⟩ := hx.fields r
    rw [heq]
    have hkept (hlookup : ((retiredState s u x).users v).response.lookup k = some r) :
        Holds (retiredState s u x) v k r b place := by
      constructor
      · exact hlookup
      · exact (congrArg Response.fd hfields).trans hholds.fd
      · exact (congrArg Response.response hfields).trans hholds.response
      · exact hholds.place_le.trans (congrArg Response.place hfields).ge
    obtain rfl | hv := eq_or_ne v u
    · cases hexpired : Expired conf.expired_number (s.responses r) with
      | true =>
          right
          rw [Expired, Bool.and_eq_true, decide_eq_true_iff] at hexpired
          have hsince := (hs.older v k r hholds.lookup hholds.fd).since
          have hplace := hholds.place_le
          have hindex := hexpired.2
          omega
      | false =>
          left
          apply hkept
          rw [retiredState_users_self]
          exact (hx.lookup_iff k r).mpr ⟨hholds.lookup, hexpired⟩
    · left
      apply hkept
      rw [retiredState_users_of_ne s x hv]
      exact hholds.lookup
  · left
    rw [State.retire_response, if_neg hdue]
    exact hholds

theorem retire_cached (hs : Cached s) (u : ℕ) :
  Cached (s.retire_response conf u)
  := by
  by_cases hdue : conf.expired_number * 2 ≤ (s.users u).index
  · obtain ⟨x, hx, heq⟩ := hs.retire_eq hdue
    rw [heq]
    exact hs.retired hx
  · rw [State.retire_response, if_neg hdue]
    exact hs

/-- Retiring brings the index of the user below the bound again. -/
theorem retire_index (hs : Cached s) {u : ℕ} (hpos : 0 < conf.expired_number)
    (hle : (s.users u).index ≤ conf.expired_number * 2) :
  ((s.retire_response conf u).users u).index < conf.expired_number * 2
  := by
  by_cases hdue : conf.expired_number * 2 ≤ (s.users u).index
  · obtain ⟨x, hx, heq⟩ := hs.retire_eq hdue
    rw [heq, retiredState_users_self]
    obtain hmax | ⟨⟨k, r⟩, hmem, hstays, hmax⟩ := hx.attained
    · dsimp only
      omega
    · rw [Stays, Bool.and_eq_true, Option.isNone_iff_eq_none, decide_eq_true_iff] at hstays
      have hlt := (hs.older u k r (AList.mem_lookup_iff.mpr hmem) hstays.1).index_lt
      have hindex := hstays.2
      dsimp only at hmax hlt hindex ⊢
      omega
  · rw [State.retire_response, if_neg hdue]
    exact Nat.not_le.mp hdue

theorem retire_users_of_ne (s : State N) (conf : Conf N) {u v : ℕ} (hv : v ≠ u) :
  (s.retire_response conf u).users v = s.users v
  := by
  rw [State.retire_response]
  split
  · exact Function.update_of_ne hv _ _
  · rfl

theorem retire_answered (s : State N) (conf : Conf N) (u v : ℕ) :
  ((s.retire_response conf u).users v).answered = (s.users v).answered
  := by
  obtain rfl | hv := eq_or_ne v u
  · rw [State.retire_response]
    split
    · dsimp only
      rw [Function.update_self]
    · rfl
  · rw [retire_users_of_ne s conf hv]

/-- An answer to the user that the response is for. -/
theorem goes_answer (hs : Cached s) (hbounded : Bounded conf s) {u r : ℕ} {p : Response N}
    (huser : (s.responses r).user = u) (huser' : p.user = (s.responses r).user)
    (hsession : p.session = (s.responses r).session) (hwaiting : p.waiting = false)
    (hindex : p.index = (s.users u).index)
    (hsame : ∀ b, (s.responses r).fd = none → (s.responses r).response = some b → p.response = some b) :
  Goes conf kept s ((s.setResponse r p).answer conf u r)
  := by
  obtain ⟨t, ht, heq⟩ := answered_answer s conf u r p
  have hcached := ht.cached hs huser hindex huser' hsession hwaiting
  have hcount : (t.retire_response conf u).userCount = s.userCount :=
    (Serves.retire_response t conf u).userCount.trans ht.userCount
  rw [heq]
  constructor
  · exact retire_cached hcached u
  · intro hpos v hv
    rw [hcount] at hv
    have hlt := hbounded hpos v hv
    obtain rfl | hne := eq_or_ne v u
    · apply retire_index hcached hpos
      rwa [ht.user]
    · rw [retire_users_of_ne t conf hne, ht.user_of_ne v hne]
      exact hlt
  · exact hcount.ge
  · intro v _
    rw [retire_answered]
    obtain rfl | hne := eq_or_ne v u
    · rw [ht.user]
      exact Nat.le_succ _
    · rw [ht.user_of_ne v hne]
  · intro v k r' b place _ hholds
    rw [retire_answered]
    exact retire_holds hcached (ht.holds hs huser hsame hholds)

/-! ### Steps and runs -/

/-- The message is a request of the user `u` for the session `k`, which the client uses again: there is a response in
the cache, and the user has not come back since it was asked for. -/
def Reuses (s : State N) (u k : ℕ) : Event → Prop
  | .message fd msg =>
      s.handshake fd = none ∧ s.connection fd = some u ∧ 4 ≤ msg.length ∧ State.session msg = k ∧
        ∃ r, (s.users u).response.lookup k = some r ∧ (s.responses r).version = some (s.users u).version
  | _ => False

theorem goes_resend (hs : Cached s) (hbounded : Bounded conf s) {u k r : ℕ} (fd : ℕ)
    (hr : (s.users u).response.lookup k = some r) :
  Goes conf kept s (s.resend conf u r fd)
  := by
  have hbelongs := hs.belongs u k r hr
  rw [State.resend]
  dsimp only
  split
  · next hresponse =>
      have hcalm : Calm kept s (s.setResponse r
          { s.responses r with fd := some fd, version := some (s.users u).version, index := (s.users u).index }) :=
        calm_setResponse hs (Option.some_ne_none fd) rfl rfl (.inr hresponse) fun _ => ⟨hbelongs.lt, hresponse⟩
      exact hcalm.goes hs hbounded
  · next b hresponse =>
      have hwaiting : (s.responses r).waiting = false := by
        apply Bool.eq_false_of_not_eq_true
        intro hwaiting
        have hnone := (hs.awaited r hwaiting).response
        rw [hresponse] at hnone
        cases hnone
      exact goes_answer hs hbounded hbelongs.user rfl rfl hwaiting rfl fun _ _ hb => hb

theorem goes_do_request [DecidableEq N] (hs : Cached s) (hbounded : Bounded conf s) (hlisted : Listed s) {fd : ℕ}
    {msg : List UInt8} (hhandshake : s.handshake fd = none)
    (hkept : ∀ u k, kept u k → ¬ Reuses s u k (.message fd msg)) :
  Goes conf kept s (s.do_request conf fd msg).1
  := by
  have hrefl : Goes conf kept s s :=
    (Untouched.calm ⟨fun _ => rfl, fun _ => rfl, fun _ => rfl, rfl, rfl, rfl⟩ hs).goes hs hbounded
  rw [State.do_request]
  split
  · exact hrefl
  · next u hu =>
      have hlt := hlisted.connected fd u hu
      split
      · exact hrefl
      · next hlong =>
          dsimp only
          split
          · next hfree => exact (calm_call hs _ hlt hfree).goes hs hbounded
          · next r hr =>
              split
              · next hversion =>
                  -- the session is used again on the same version
                  have hnot : ¬ kept u (State.session msg) := fun hk =>
                    hkept u _ hk ⟨hhandshake, hu, Nat.not_lt.mp hlong, rfl, r, hr, hversion⟩
                  have herase := (calm_erase hs hnot).goes hs hbounded
                  split
                  · exact herase
                  · refine herase.trans hs ((calm_call herase.cached _ hlt ?_).goes herase.cached herase.bounded)
                    rw [State.setUser_users_self]
                    exact AList.lookup_erase _ _
              · exact goes_resend hs hbounded fd hr

theorem goes_message [LinearOrder N] (hs : Cached s) (hbounded : Bounded conf s) (hlisted : Listed s) {fd : ℕ}
    {msg : List UInt8} (hkept : ∀ u k, kept u k → ¬ Reuses s u k (.message fd msg)) :
  Goes conf kept s (s.message conf fd msg)
  := by
  rw [State.message]
  split
  · next addr _ =>
      have h := Untouched.auth s conf fd addr msg
      have h' : Untouched s { s.auth conf fd addr msg with
          handshake := Function.update (s.auth conf fd addr msg).handshake fd none } :=
        ⟨h.response, h.index, h.answered, h.userCount, h.responses, h.responseCount⟩
      exact (h'.calm hs).goes hs hbounded
  · next hhandshake =>
      have h : Goes conf kept s (s.do_request conf fd msg).1 := goes_do_request hs hbounded hlisted hhandshake hkept
      rw [State.request]
      split
      · next heq =>
          rw [heq] at h
          exact h
      · next heq =>
          rw [heq] at h
          exact h.trans hs (((Untouched.refuse _ fd).calm h.cached).goes h.cached h.bounded)

theorem goes_finish (hs : Cached s) (hbounded : Bounded conf s) {r : ℕ} (hwaiting : (s.responses r).waiting = true)
    (result : Option (List UInt8)) :
  Goes conf kept s (s.finish conf r result)
  := by
  have hawaited := hs.awaited r hwaiting
  rw [State.finish]
  dsimp only
  split
  · have hcalm : Calm kept s (s.setResponse r { s.responses r with waiting := false }) :=
      calm_setResponse hs hawaited.fd rfl rfl (.inl hawaited.fd) fun h => absurd h Bool.false_ne_true
    have h : Goes conf kept s (s.setResponse r { s.responses r with waiting := false }) := hcalm.goes hs hbounded
    exact h.trans hs (((Untouched.refuse _ _).calm h.cached).goes h.cached h.bounded)
  · exact goes_answer hs hbounded rfl rfl rfl rfl rfl fun _ hfd _ => absurd hfd hawaited.fd

/-- What holds in every run. -/
structure Sound (conf : Conf N) (s : State N) : Prop where
  listed : Listed s
  cached : Cached s
  bounded : Bounded conf s

theorem Sound.start [Zero N] (conf : Conf N) :
  Sound conf (State.start N)
  := by
  constructor
  · exact Listed.start
  · constructor
    · intro u k r hr
      cases hr
    · intro r hr
      cases hr
    · intro u k r hr
      cases hr
    · intro u k r k' r' hr
      cases hr
  · intro _ u hu
    cases hu

/-- The responses of a cache that have been sent have different indexes below that of the user. -/
theorem Cached.length_sent_le (h : Cached s) (u : ℕ) :
  ((s.users u).response.entries.filter fun e => (s.responses e.2).fd.isNone).length ≤ (s.users u).index
  := by
  have hentry : ∀ e ∈ (s.users u).response.entries.filter fun e => (s.responses e.2).fd.isNone,
      (s.users u).response.lookup e.1 = some e.2 ∧ (s.responses e.2).fd = none := by
    intro e he
    rw [List.mem_filter, Option.isNone_iff_eq_none] at he
    exact ⟨AList.mem_lookup_iff.mpr he.1, he.2⟩
  have hnodup : (((s.users u).response.entries.filter fun e => (s.responses e.2).fd.isNone).map
      fun e => (s.responses e.2).index).Nodup := by
    apply List.Nodup.map_on
    · rintro ⟨k, r⟩ he ⟨k', r'⟩ he' heq
      obtain ⟨hr, hfd⟩ := hentry _ he
      obtain ⟨hr', hfd'⟩ := hentry _ he'
      obtain rfl := h.distinct u k r k' r' hr hr' hfd hfd' heq
      rw [← (h.belongs u k r hr).session, ← (h.belongs u k' r hr').session]
    · exact (List.NodupKeys.nodup (s.users u).response.nodupKeys).filter _
  have hsub : ((s.users u).response.entries.filter fun e => (s.responses e.2).fd.isNone).map
      (fun e => (s.responses e.2).index) ⊆ List.range (s.users u).index := by
    intro i hi
    obtain ⟨e, he, rfl⟩ := List.mem_map.mp hi
    obtain ⟨hr, hfd⟩ := hentry e he
    exact List.mem_range.mpr (h.older u e.1 e.2 hr hfd).index_lt
  have hlength := (List.subperm_of_subset hnodup hsub).length_le
  rwa [List.length_map, List.length_range] at hlength

/-- A response is sent to the connection that asked for it last. -/
theorem answer_out (s : State N) (conf : Conf N) {u r fd : ℕ} {b : List UInt8} (hfd : (s.responses r).fd = some fd)
    (hresponse : (s.responses r).response = some b) (hu : s.connection fd ≠ none) :
  (s.answer conf u r).out = s.out ++ [.send fd b]
  := by
  have hretire : ∀ t : State N, (t.retire_response conf u).out = t.out := by
    intro t
    rw [State.retire_response]
    split <;> rfl
  rw [State.answer, hretire]
  split
  · next fd' b' hfd' hb' =>
      obtain rfl := Option.some.inj (hfd.symm.trans hfd')
      obtain rfl := Option.some.inj (hresponse.symm.trans hb')
      split
      · next hnone => exact absurd hnone hu
      · rfl
  · next hnot => exact absurd hresponse (hnot fd b hfd)

variable [LinearOrder N] [Zero N]

theorem goes_step (hs : Cached s) (hbounded : Bounded conf s) (hlisted : Listed s) {e : Event}
    (hkept : ∀ u k, kept u k → ¬ Reuses s u k e) (hstep : step conf s e = some s') :
  Goes conf kept s s'
  := by
  cases e with
  | login username secret =>
      obtain rfl := Option.some.inj hstep
      exact (calm_login hs username secret).goes hs hbounded
  | logout username =>
      obtain rfl := Option.some.inj hstep
      exact ((Untouched.logout s username).calm hs).goes hs hbounded
  | connect fd addr =>
      obtain rfl := Option.some.inj hstep
      have h : Untouched s (s.connect fd addr) := ⟨fun _ => rfl, fun _ => rfl, fun _ => rfl, rfl, rfl, rfl⟩
      exact (h.calm hs).goes hs hbounded
  | disconnect fd =>
      obtain rfl := Option.some.inj hstep
      exact ((Untouched.disconnect s fd).calm hs).goes hs hbounded
  | message fd msg =>
      rw [step] at hstep
      split at hstep
      · obtain rfl := Option.some.inj hstep
        exact goes_message hs hbounded hlisted hkept
      · cases hstep
  | finish r result =>
      rw [step] at hstep
      split at hstep
      · next hwaiting =>
          obtain rfl := Option.some.inj hstep
          exact goes_finish hs hbounded hwaiting result
      · cases hstep

theorem Sound.step (h : Sound conf s) {e : Event} (hstep : step conf s e = some s') :
  Sound conf s'
  := by
  have hgoes : Goes conf (fun _ _ => False) s s' :=
    goes_step h.cached h.bounded h.listed (fun _ _ => False.elim) hstep
  exact ⟨h.listed.step hstep, hgoes.cached, hgoes.bounded⟩

theorem Sound.reachable (hs : (machine conf).Reachable s) :
  Sound conf s
  := Machine.invariant (fun _ h => by subst h; exact Sound.start conf) (fun _ _ _ h _ hstep => h.step hstep) hs

/-- As long as a session is not used again, its response stays in the cache until many others have been sent. -/
theorem Sound.holds_run (h : Sound conf s) {u k r place : ℕ} {b : List UInt8} (hholds : Holds s u k r b place)
    {es : List Event} (hguard : (machine conf).Guarded (fun s e => ¬ Reuses s u k e) s es)
    (hrun : (machine conf).exec s es = some s') :
  Holds s' u k r b place ∨ place + conf.expired_number < (s'.users u).answered
  := by
  have hanswered : ∀ es s, Sound conf s → u < s.userCount → (machine conf).exec s es = some s' →
      (s.users u).answered ≤ (s'.users u).answered := by
    intro es
    induction es with
    | nil =>
        intro s _ _ hrun
        obtain rfl := Option.some.inj hrun
        exact le_rfl
    | cons e es ih =>
        intro s h hu hrun
        obtain ⟨t, hstep, hrest⟩ := Option.bind_eq_some_iff.mp hrun
        have hgoes : Goes conf (fun _ _ => False) s t :=
          goes_step h.cached h.bounded h.listed (fun _ _ => False.elim) hstep
        exact (hgoes.answered u hu).trans
          (ih t (h.step hstep) (Nat.lt_of_lt_of_le hu hgoes.userCount) hrest)
  induction es generalizing s with
  | nil =>
      obtain rfl := Option.some.inj hrun
      exact .inl hholds
  | cons e es ih =>
      obtain ⟨t, hstep, hrest⟩ := Option.bind_eq_some_iff.mp hrun
      obtain ⟨hnot, hguard⟩ := hguard t hstep
      have hgoes : Goes conf (fun v k' => v = u ∧ k' = k) s t := by
        refine goes_step h.cached h.bounded h.listed ?_ hstep
        rintro v k' ⟨rfl, rfl⟩
        exact hnot
      obtain hholds' | hexpired := hgoes.holds u k r b place ⟨rfl, rfl⟩ hholds
      · exact ih (h.step hstep) hholds' hguard hrest
      · have hu := (h.cached.belongs u k r hholds.lookup).user_lt
        exact .inr (Nat.lt_of_lt_of_le hexpired
          (hanswered es t (h.step hstep) (Nat.lt_of_lt_of_le hu hgoes.userCount) hrest))

/-- A request that is sent again on another version is answered from the cache. -/
theorem Holds.resent {u k r place fd : ℕ} {b msg : List UInt8} (h : Holds s u k r b place) (hgate : s.gate fd = true)
    (hhandshake : s.handshake fd = none) (hu : s.connection fd = some u) (hlong : 4 ≤ msg.length)
    (hk : State.session msg = k) (hversion : (s.responses r).version ≠ some (s.users u).version) :
  ∃ s', step conf s (.message fd msg) = some s' ∧ s'.out = s.out ++ [.send fd b]
  := by
  have hrequest : s.do_request conf fd msg = (s.resend conf u r fd, false) := by
    subst hk
    rw [State.do_request, hu]
    simp only [if_neg (Nat.not_lt.mpr hlong), h.lookup, if_neg hversion]
  refine ⟨s.resend conf u r fd, ?_, ?_⟩
  · rw [step, if_pos hgate, State.message, hhandshake]
    dsimp only
    rw [State.request, hrequest]
  · rw [State.resend]
    simp only [h.response]
    apply answer_out
    · rw [State.setResponse_responses_self]
    · rw [State.setResponse_responses_self]
    · exact fun hnone => Option.some_ne_none u (hu.symm.trans hnone)

/-- A response that has been sent stays in the cache of its user until `expired_number` others or more have been sent
to the user after it, unless the client uses its session again on the same version.  Of the responses that have been
sent a cache has fewer than twice `expired_number`.  And while a response is in the cache, the request that it
answers, sent again after the user has come back, is answered with the same bytes, and the handler is not called. -/
theorem cached_until_expired (conf : Conf N) {s : State N} (hs : (machine conf).Reachable s) :
  (∀ u k r b place, Holds s u k r b place → ∀ es s', (machine conf).Guarded (fun s e => ¬ Reuses s u k e) s es →
    (machine conf).exec s es = some s' →
      Holds s' u k r b place ∨ place + conf.expired_number < (s'.users u).answered) ∧
  (0 < conf.expired_number → ∀ u < s.userCount,
    ((s.users u).response.entries.filter fun e => (s.responses e.2).fd.isNone).length < conf.expired_number * 2) ∧
  (∀ u k r b place fd msg, Holds s u k r b place → s.gate fd = true → s.handshake fd = none →
    s.connection fd = some u → 4 ≤ msg.length → State.session msg = k →
    (s.responses r).version ≠ some (s.users u).version →
      ∃ s', step conf s (.message fd msg) = some s' ∧ s'.out = s.out ++ [.send fd b])
  := by
  have h := Sound.reachable hs
  refine ⟨?_, ?_, ?_⟩
  · intro u k r b place hholds es s' hguard hrun
    exact h.holds_run hholds hguard hrun
  · intro hpos u hu
    exact Nat.lt_of_le_of_lt (h.cached.length_sent_le u) (h.bounded hpos u hu)
  · intro u k r b place fd msg hholds hgate hhandshake hu hlong hk hversion
    exact hholds.resent hgate hhandshake hu hlong hk hversion

/-- A user asks, the handler returns, and the connection is cut; the user comes back on another one. -/
def asked : List Event :=
  [.login [7] [9], .connect 1 "127.0.0.1:4000", .message 1 [5, 9, 5], .message 1 [42, 0, 0, 0, 3],
    .finish 0 (some [43]), .disconnect 1, .connect 2 "127.0.0.1:4001", .message 2 [6, 9, 6]]

theorem cached_until_expired_asked :
  ∃ s s', (machine oneUser).exec (.start ℕ) asked = some s ∧
    step oneUser s (.message 2 [42, 0, 0, 0, 3]) = some s' ∧ s'.out = s.out ++ [.send 2 [0, 6, 43, 1, 0, 0, 0, 3]]
  := by
  have hreachable := Machine.Reachable.exec (M := machine oneUser) asked (.init rfl) rfl
  obtain ⟨-, -, hagain⟩ := cached_until_expired oneUser hreachable
  obtain ⟨s', hstep, hout⟩ := hagain 0 3 0 [0, 6, 43, 1, 0, 0, 0, 3] 0 2 [42, 0, 0, 0, 3]
    ⟨AList.lookup_insert _, rfl, rfl, le_rfl⟩ rfl rfl rfl (by decide) rfl (by decide)
  exact ⟨_, s', rfl, hstep, hout⟩

end Msgserver

end Skynet
