import FWServer.Skynet.MsgserverOnline

/-!
# How responses are retired

`retire_response` goes through the cache of a user.  Of the responses that have been sent it drops those with an index
below `expired_number`, and takes that away from the indexes of the others (`retired_foldl`).  So the distance
between the index of a response and that of its user says how many others have been sent since (`Older`), and the loop
keeps it (`Cached.retired`).
-/

namespace Skynet

namespace Msgserver

variable {N : Type} {s s' : State N} {conf : Conf N}

/-! ### Retiring responses -/

section Retire

variable {n : ℕ} {R : ℕ → Response N}

/-- A response that has been sent is dropped when its index is below `n`, and else its index goes down by `n`. -/
def Expired (n : ℕ) (p : Response N) : Bool :=
  p.fd.isNone && decide (p.index < n)

/-- A response that has been sent and stays. -/
def Stays (n : ℕ) (p : Response N) : Bool :=
  p.fd.isNone && decide (n ≤ p.index)

/-- What the loop of `retire_response` over the entries `l` leaves of a cache, of the responses and of `max`. -/
structure Retired (n : ℕ) (l : List ((_ : ℕ) × ℕ)) (T : AList fun _ : ℕ => ℕ) (R : ℕ → Response N) (max : ℕ)
    (x : (AList fun _ : ℕ => ℕ) × (ℕ → Response N) × ℕ) : Prop where
  lookup : ∀ k, x.1.lookup k = if ∃ e ∈ l, e.1 = k ∧ Expired n (R e.2) then none else T.lookup k
  responses : ∀ r, x.2.1 r =
    if r ∈ l.map Sigma.snd ∧ Stays n (R r) then { R r with index := (R r).index - n } else R r
  le : max ≤ x.2.2
  max_le : ∀ e ∈ l, Stays n (R e.2) → (R e.2).index - n ≤ x.2.2
  attained : x.2.2 = max ∨ ∃ e ∈ l, Stays n (R e.2) ∧ x.2.2 = (R e.2).index - n

theorem retireOne_of_expired {e : (_ : ℕ) × ℕ} (h : Expired n (R e.2)) (T : AList fun _ : ℕ => ℕ) (max : ℕ) :
  State.retireOne n (T, R, max) e = (T.erase e.1, R, max)
  := by
  rw [Expired, Bool.and_eq_true, Option.isNone_iff_eq_none, decide_eq_true_iff] at h
  simp only [State.retireOne, if_pos h.1, if_pos h.2]

theorem retireOne_of_stays {e : (_ : ℕ) × ℕ} (h : Stays n (R e.2)) (T : AList fun _ : ℕ => ℕ) (max : ℕ) :
  State.retireOne n (T, R, max) e =
    (T, Function.update R e.2 { R e.2 with index := (R e.2).index - n }, Nat.max max ((R e.2).index - n))
  := by
  rw [Stays, Bool.and_eq_true, Option.isNone_iff_eq_none, decide_eq_true_iff] at h
  simp only [State.retireOne, if_pos h.1, if_neg (Nat.not_lt.mpr h.2)]
  congr 2
  split
  · next hgt => exact (Nat.max_eq_right hgt.le).symm
  · next hle => exact (Nat.max_eq_left (Nat.not_lt.mp hle)).symm

theorem retireOne_of_waiting {e : (_ : ℕ) × ℕ} (h : (R e.2).fd ≠ none) (T : AList fun _ : ℕ => ℕ) (max : ℕ) :
  State.retireOne n (T, R, max) e = (T, R, max)
  := by simp only [State.retireOne, if_neg h]

theorem expired_or_stays (n : ℕ) (p : Response N) :
  Expired n p = true ∧ Stays n p = false ∨ Expired n p = false ∧ Stays n p = true ∨
    Expired n p = false ∧ Stays n p = false ∧ p.fd ≠ none
  := by
  cases hfd : p.fd with
  | some fd => exact .inr (.inr ⟨by simp [Expired, hfd], by simp [Stays, hfd], nofun⟩)
  | none =>
      by_cases hlt : p.index < n
      · exact .inl ⟨by simp [Expired, hfd, hlt], by simp [Stays, hfd, hlt]⟩
      · exact .inr (.inl ⟨by simp [Expired, hfd, hlt], by simp [Stays, hfd, Nat.not_lt.mp hlt]⟩)

/-- The loop looks at every response once. -/
theorem retired_foldl (l : List ((_ : ℕ) × ℕ)) (hl : (l.map Sigma.snd).Nodup) (T : AList fun _ : ℕ => ℕ)
    (R : ℕ → Response N) (max : ℕ) :
  Retired n l T R max (l.foldl (State.retireOne n) (T, R, max))
  := by
  induction l generalizing T R max with
  | nil => exact ⟨fun k => by simp, fun r => by simp, le_refl _, nofun, .inl rfl⟩
  | cons e l ih =>
      rw [List.map_cons, List.nodup_cons] at hl
      rw [List.foldl_cons]
      obtain ⟨hexpired, hstays⟩ | ⟨hexpired, hstays⟩ | ⟨hexpired, hstays, hfd⟩ := expired_or_stays n (R e.2)
      · rw [retireOne_of_expired hexpired]
        have h := ih hl.2 (T.erase e.1) R max
        constructor
        · intro k
          rw [h.lookup]
          by_cases hk : e.1 = k
          · subst hk
            rw [AList.lookup_erase, ite_self]
            exact (if_pos ⟨e, List.mem_cons_self, rfl, hexpired⟩).symm
          · rw [AList.lookup_erase_ne (Ne.symm hk)]
            simp only [List.exists_mem_cons_iff, hk, false_and, false_or]
        · intro r
          rw [h.responses]
          obtain rfl | hr := eq_or_ne r e.2
          · simp only [hstays, Bool.false_eq_true, and_false, if_false]
          · simp only [List.map_cons, List.mem_cons, hr, false_or]
        · exact h.le
        · simpa only [List.forall_mem_cons, hstays, Bool.false_eq_true, false_implies, true_and] using h.max_le
        · simpa only [List.exists_mem_cons_iff, hstays, Bool.false_eq_true, false_and, false_or] using h.attained
      · rw [retireOne_of_stays hstays]
        have hsame : ∀ e' ∈ l, Function.update R e.2 { R e.2 with index := (R e.2).index - n } e'.2 = R e'.2 := by
          intro e' he'
          apply Function.update_of_ne
          rintro heq
          exact hl.1 (heq ▸ List.mem_map_of_mem he')
        generalize hR : Function.update R e.2 { R e.2 with index := (R e.2).index - n } = R' at hsame ⊢
        have h := ih hl.2 T R' (Nat.max max ((R e.2).index - n))
        constructor
        · intro k
          rw [h.lookup]
          simp only [List.exists_mem_cons_iff, hexpired, Bool.false_eq_true, and_false, false_or]
          congr 1
          exact propext (exists_congr fun e' => and_congr_right fun he' => by rw [hsame e' he'])
        · intro r
          rw [h.responses]
          obtain rfl | hr := eq_or_ne r e.2
          · rw [if_neg fun hmem => hl.1 hmem.1, ← hR, Function.update_self]
            simp only [List.map_cons, List.mem_cons_self, hstays, and_self, if_true]
          · rw [← hR, Function.update_of_ne hr]
            simp only [List.map_cons, List.mem_cons, hr, false_or]
        · exact (Nat.le_max_left _ _).trans h.le
        · intro e' he' hstays'
          obtain rfl | he' := List.mem_cons.mp he'
          · exact (Nat.le_max_right _ _).trans h.le
          · have hle := h.max_le e' he'
            rw [hsame e' he'] at hle
            exact hle hstays'
        · obtain hmax | ⟨e', he', hstays', hmax⟩ := h.attained
          · obtain hle | hle := Nat.le_total max ((R e.2).index - n)
            · exact .inr ⟨e, List.mem_cons_self, hstays, hmax.trans (Nat.max_eq_right hle)⟩
            · exact .inl (hmax.trans (Nat.max_eq_left hle))
          · rw [hsame e' he'] at hstays' hmax
            exact .inr ⟨e', List.mem_cons_of_mem _ he', hstays', hmax⟩
      · rw [retireOne_of_waiting hfd]
        have h := ih hl.2 T R max
        constructor
        · intro k
          rw [h.lookup]
          simp only [List.exists_mem_cons_iff, hexpired, Bool.false_eq_true, and_false, false_or]
        · intro r
          rw [h.responses]
          obtain rfl | hr := eq_or_ne r e.2
          · simp only [hstays, Bool.false_eq_true, and_false, if_false]
          · simp only [List.map_cons, List.mem_cons, hr, false_or]
        · exact h.le
        · simpa only [List.forall_mem_cons, hstays, Bool.false_eq_true, false_implies, true_and] using h.max_le
        · simpa only [List.exists_mem_cons_iff, hstays, Bool.false_eq_true, false_and, false_or] using h.attained

/-- Of a cache the loop leaves the responses that have not expired. -/
theorem Retired.lookup_iff {T : AList fun _ : ℕ => ℕ} {max : ℕ} {x : (AList fun _ : ℕ => ℕ) × (ℕ → Response N) × ℕ}
    (h : Retired n T.entries T R max x) (k r : ℕ) :
  x.1.lookup k = some r ↔ T.lookup k = some r ∧ Expired n (R r) = false
  := by
  rw [h.lookup]
  split
  · next hexpired =>
      obtain ⟨⟨k, r'⟩, hmem, rfl, hexpired⟩ := hexpired
      have hlookup : T.lookup k = some r' := AList.mem_lookup_iff.mpr hmem
      refine iff_of_false nofun ?_
      rintro ⟨hr, hnot⟩
      obtain rfl := Option.some.inj (hlookup.symm.trans hr)
      rw [hexpired] at hnot
      cases hnot
  · next hleft =>
      refine ⟨fun hr => ⟨hr, ?_⟩, And.left⟩
      have hmem : (⟨k, r⟩ : (_ : ℕ) × ℕ) ∈ T.entries := AList.mem_lookup_iff.mp hr
      apply Bool.eq_false_of_not_eq_true
      exact fun hexpired => hleft ⟨⟨k, r⟩, hmem, rfl, hexpired⟩

end Retire

/-! ### The caches -/

/-- The response `r` has an index below that of the user `u`, and as many others as lie between the two have been sent
since. -/
structure Older (s : State N) (u r : ℕ) : Prop where
  index_lt : (s.responses r).index < (s.users u).index
  place_lt : (s.responses r).place < (s.users u).answered
  since : (s.users u).index + (s.responses r).place ≤ (s.users u).answered + (s.responses r).index

/-- The response `r` was made for the session `k` of the user `u`. -/
structure Belongs (s : State N) (u k r : ℕ) : Prop where
  user_lt : u < s.userCount
  lt : r < s.responseCount
  user : (s.responses r).user = u
  session : (s.responses r).session = k

/-- A response that waits for the handler has not been sent, and is not there yet. -/
structure Awaited (s : State N) (r : ℕ) : Prop where
  lt : r < s.responseCount
  fd : (s.responses r).fd ≠ none
  response : (s.responses r).response = none

/-- The entries of a cache are responses to its user; those that have been sent have different indexes. -/
structure Cached (s : State N) : Prop where
  belongs : ∀ u k r, (s.users u).response.lookup k = some r → Belongs s u k r
  awaited : ∀ r, (s.responses r).waiting = true → Awaited s r
  older : ∀ u k r, (s.users u).response.lookup k = some r → (s.responses r).fd = none → Older s u r
  distinct : ∀ u k r k' r', (s.users u).response.lookup k = some r → (s.users u).response.lookup k' = some r' →
    (s.responses r).fd = none → (s.responses r').fd = none → (s.responses r).index = (s.responses r').index → r = r'

/-- A response of a cache is in it once. -/
theorem Cached.nodup (h : Cached s) (u : ℕ) :
  ((s.users u).response.entries.map Sigma.snd).Nodup
  := by
  refine List.Nodup.map_on ?_ (List.NodupKeys.nodup (s.users u).response.nodupKeys)
  rintro ⟨k, r⟩ hr ⟨k', r'⟩ hr' heq
  obtain rfl : r = r' := heq
  have hk := (h.belongs u k r (AList.mem_lookup_iff.mpr hr)).session
  have hk' := (h.belongs u k' r (AList.mem_lookup_iff.mpr hr')).session
  rw [← hk, ← hk']

/-- The state after the loop, which leaves `x`. -/
def retiredState (s : State N) (u : ℕ) (x : (AList fun _ : ℕ => ℕ) × (ℕ → Response N) × ℕ) : State N :=
  { s with
    users := Function.update s.users u { s.users u with response := x.1, index := x.2.2 + 1 }
    responses := x.2.1 }

theorem retiredState_users_self (s : State N) (u : ℕ) (x : (AList fun _ : ℕ => ℕ) × (ℕ → Response N) × ℕ) :
  (retiredState s u x).users u = { s.users u with response := x.1, index := x.2.2 + 1 }
  := Function.update_self _ _ _

theorem retiredState_users_of_ne (s : State N) {u v : ℕ} (x : (AList fun _ : ℕ => ℕ) × (ℕ → Response N) × ℕ)
    (hv : v ≠ u) :
  (retiredState s u x).users v = s.users v
  := Function.update_of_ne hv _ _

/-- What `retire_response` does when it is time. -/
theorem Cached.retire_eq (h : Cached s) {u : ℕ} (hdue : conf.expired_number * 2 ≤ (s.users u).index) :
  ∃ x, Retired conf.expired_number (s.users u).response.entries (s.users u).response s.responses 0 x ∧
    s.retire_response conf u = retiredState s u x
  := by
  refine ⟨_, retired_foldl _ (h.nodup u) _ _ _, ?_⟩
  rw [State.retire_response]
  exact if_pos hdue

/-- The loop changes nothing of a response but its index. -/
theorem Retired.fields {n : ℕ} {l : List ((_ : ℕ) × ℕ)} {T : AList fun _ : ℕ => ℕ} {R : ℕ → Response N} {max : ℕ}
    {x : (AList fun _ : ℕ => ℕ) × (ℕ → Response N) × ℕ} (h : Retired n l T R max x) (r : ℕ) :
  ∃ index, x.2.1 r = { R r with index := index }
  := by
  rw [h.responses]
  split
  · exact ⟨_, rfl⟩
  · exact ⟨(R r).index, rfl⟩

theorem stays_of_not_expired {n : ℕ} {p : Response N} (hfd : p.fd = none) (h : Expired n p = false) :
  Stays n p = true ∧ n ≤ p.index
  := by
  obtain ⟨hexpired, -⟩ | ⟨-, hstays⟩ | ⟨-, -, hfd'⟩ := expired_or_stays n p
  · rw [hexpired] at h
    cases h
  · refine ⟨hstays, ?_⟩
    rw [Stays, Bool.and_eq_true, decide_eq_true_iff] at hstays
    exact hstays.2
  · exact absurd hfd hfd'

section Retiring

variable {u : ℕ} {x : (AList fun _ : ℕ => ℕ) × (ℕ → Response N) × ℕ}

/-- A response in the cache of another user is left alone. -/
theorem Cached.retired_other (h : Cached s)
    (hx : Retired conf.expired_number (s.users u).response.entries (s.users u).response s.responses 0 x) {v k r : ℕ}
    (hv : v ≠ u) (hr : (s.users v).response.lookup k = some r) :
  x.2.1 r = s.responses r
  := by
  rw [hx.responses]
  apply if_neg
  rintro ⟨hmem, -⟩
  obtain ⟨⟨k', r⟩, hentry, rfl⟩ := List.mem_map.mp hmem
  have hu := (h.belongs u k' r (AList.mem_lookup_iff.mpr hentry)).user
  exact hv ((h.belongs v k r hr).user.symm.trans hu)

/-- A response that has been sent and stays keeps its distance to those sent after it. -/
theorem Cached.retired_self (h : Cached s)
    (hx : Retired conf.expired_number (s.users u).response.entries (s.users u).response s.responses 0 x) {k r : ℕ}
    (hr : x.1.lookup k = some r) (hfd : (s.responses r).fd = none) :
  x.2.1 r = { s.responses r with index := (s.responses r).index - conf.expired_number } ∧
    conf.expired_number ≤ (s.responses r).index ∧
    (s.responses r).index - conf.expired_number ≤ x.2.2 ∧ x.2.2 + 1 + conf.expired_number ≤ (s.users u).index
  := by
  obtain ⟨hlookup, hexpired⟩ := (hx.lookup_iff k r).mp hr
  obtain ⟨hstays, hle⟩ := stays_of_not_expired hfd hexpired
  have hmem : (⟨k, r⟩ : (_ : ℕ) × ℕ) ∈ (s.users u).response.entries := AList.mem_lookup_iff.mp hlookup
  have hlt := (h.older u k r hlookup hfd).index_lt
  refine ⟨?_, hle, hx.max_le _ hmem hstays, ?_⟩
  · rw [hx.responses]
    exact if_pos ⟨List.mem_map_of_mem hmem, hstays⟩
  · obtain hmax | ⟨⟨k', r'⟩, hmem', hstays', hmax⟩ := hx.attained
    · omega
    · rw [Stays, Bool.and_eq_true, Option.isNone_iff_eq_none, decide_eq_true_iff] at hstays'
      have hlt' := (h.older u k' r' (AList.mem_lookup_iff.mpr hmem') hstays'.1).index_lt
      have hle' := hstays'.2
      dsimp only at hmax hle' hlt'
      omega

theorem Cached.retired (h : Cached s)
    (hx : Retired conf.expired_number (s.users u).response.entries (s.users u).response s.responses 0 x) :
  Cached (retiredState s u x)
  := by
  have hself := retiredState_users_self s u x
  have hother : ∀ v, v ≠ u → (retiredState s u x).users v = s.users v := fun v hv => retiredState_users_of_ne s x hv
  have hresponses : (retiredState s u x).responses = x.2.1 := rfl
  have hfd : ∀ r, (x.2.1 r).fd = (s.responses r).fd := by
    intro r
    obtain ⟨index, heq⟩ := hx.fields r
    rw [heq]
  constructor
  · intro v k r hr
    have hlookup : (s.users v).response.lookup k = some r := by
      obtain rfl | hv := eq_or_ne v u
      · rw [hself] at hr
        exact ((hx.lookup_iff k r).mp hr).1
      · rwa [hother v hv] at hr
    obtain ⟨index, heq⟩ := hx.fields r
    have hbelongs := h.belongs v k r hlookup
    constructor
    · exact hbelongs.user_lt
    · exact hbelongs.lt
    · rw [hresponses, heq]
      exact hbelongs.user
    · rw [hresponses, heq]
      exact hbelongs.session
  · intro r hr
    obtain ⟨index, heq⟩ := hx.fields r
    rw [hresponses, heq] at hr
    have hawaited := h.awaited r hr
    constructor
    · exact hawaited.lt
    · rw [hresponses, heq]
      exact hawaited.fd
    · rw [hresponses, heq]
      exact hawaited.response
  · intro v k r hr hnone
    rw [hresponses, hfd] at hnone
    obtain rfl | hv := eq_or_ne v u
    · rw [hself] at hr
      obtain ⟨heq, hle, hmax, hindex⟩ := h.retired_self hx hr hnone
      have hold := h.older v k r ((hx.lookup_iff k r).mp hr).1 hnone
      have hsince := hold.since
      constructor
      · rw [hself, hresponses, heq]
        exact Nat.lt_succ_of_le hmax
      · rw [hself, hresponses, heq]
        exact hold.place_lt
      · rw [hself, hresponses, heq]
        dsimp only
        omega
    · rw [hother v hv] at hr
      have hold := h.older v k r hr hnone
      have heq := h.retired_other hx hv hr
      constructor
      · rw [hother v hv, hresponses, heq]
        exact hold.index_lt
      · rw [hother v hv, hresponses, heq]
        exact hold.place_lt
      · rw [hother v hv, hresponses, heq]
        exact hold.since
  · intro v k r k' r' hr hr' hnone hnone' hindex
    rw [hresponses, hfd] at hnone hnone'
    rw [hresponses] at hindex
    obtain rfl | hv := eq_or_ne v u
    · rw [hself] at hr hr'
      obtain ⟨heq, hle, -⟩ := h.retired_self hx hr hnone
      obtain ⟨heq', hle', -⟩ := h.retired_self hx hr' hnone'
      rw [heq, heq'] at hindex
      dsimp only at hindex
      exact h.distinct v k r k' r' ((hx.lookup_iff k r).mp hr).1 ((hx.lookup_iff k' r').mp hr').1 hnone hnone'
        (by omega)
    · rw [hother v hv] at hr hr'
      rw [h.retired_other hx hv hr, h.retired_other hx hv hr'] at hindex
      exact h.distinct v k r k' r' hr hr' hnone hnone' hindex

end Retiring

end Msgserver

end Skynet
