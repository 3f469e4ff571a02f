import FWServer.Skynet.Packages

/-!
# The assertions of `send_buffer`

`send_buffer` takes the head of the list of low priority to be written in part when its address is not that of its
buffer (`list_uncomplete`).  The assertions fail in two cases.  A user object may have its bytes at an address of
their own, and then it is taken to be written in part before anything has been written.  And the writes may stop
between two packages of the list of low priority: then its head is taken not to be written in part, which
`send_buffer` takes for the end of the list.
-/

namespace Skynet

/-- The writes of the list stop at a package which is not taken to be written in part afterwards. -/
def stallsLow : List WriteBuffer → List WriteResult → Bool
  | [], _ => false
  | _ :: _, [] => false
  | wb :: low, .intr :: results => stallsLow (wb :: low) results
  | wb :: _, .again :: _ => wb.ptr = wb.buffer
  | _ :: _, .error _ :: _ => false
  | wb :: low, .count n :: results =>
      if n = wb.data.length then stallsLow low results else wb.ptr + n = wb.buffer

/-- The writes get through the list of high priority, and those of the list of low priority stop so. -/
def stalls (low : List WriteBuffer) : List WriteBuffer → List WriteResult → Bool
  | [], results => stallsLow low results
  | _ :: _, [] => false
  | wb :: high, .intr :: results => stalls low (wb :: high) results
  | _ :: _, .again :: _ => false
  | _ :: _, .error _ :: _ => false
  | wb :: high, .count n :: results => if n = wb.data.length then stalls low high results else false

/-- The head of the list of low priority has its bytes at its own address if it is a user object, and the writes do not
stop between two packages of that list. -/
def Smooth (s : Socket) (results : List WriteResult) : Prop :=
  (∀ wb, s.low.head? = some wb → wb.userobject = true → wb.ptr = wb.buffer) ∧ stalls s.low s.high results = false

/-! ### Where the writes stop -/

section Stalls

variable {list low high : List WriteBuffer} {results : List WriteResult} {x : Sent}

theorem listUncomplete_cons (wb : WriteBuffer) (list : List WriteBuffer) :
  listUncomplete (wb :: list) = !decide (wb.ptr = wb.buffer)
  := decide_not

/-- The writes of the list of low priority stop so when something is left of it that is not taken to be written in
part. -/
theorem stallsLow_iff (hx : sendListTcp list results = some x) :
  stallsLow list results = true ↔ x.failed = false ∧ x.list ≠ [] ∧ listUncomplete x.list = false
  := by
  fun_induction sendListTcp list results generalizing x with
  | case1 results =>
      obtain rfl := Option.some.inj hx
      rw [stallsLow]
      exact iff_of_false Bool.false_ne_true fun h => h.2.1 rfl
  | case2 => cases hx
  | case3 tmp list results ih => exact ih hx
  | case4 tmp list results =>
      obtain rfl := Option.some.inj hx
      rw [stallsLow, listUncomplete_cons]
      simp
  | case5 tmp list text results =>
      obtain rfl := Option.some.inj hx
      exact iff_of_false Bool.false_ne_true (by rintro ⟨⟨⟩, -⟩)
  | case6 => cases hx
  | case7 tmp list n results hle hne =>
      obtain rfl := Option.some.inj hx
      rw [stallsLow, if_neg hne, listUncomplete_cons]
      simp
  | case8 tmp list n results hle heq ih =>
      obtain ⟨y, hy, rfl⟩ := Option.map_eq_some_iff.mp hx
      have hstalls := ih hy
      rw [stallsLow, if_pos (not_not.mp heq)]
      exact hstalls

/-- The writes stop so in the list of low priority with what is left when the other has been written. -/
theorem stalls_of_high (hx : sendListTcp high results = some x) :
  stalls low high results = (decide (x.list = []) && !x.failed && stallsLow low x.rest)
  := by
  fun_induction sendListTcp high results generalizing x with
  | case1 results =>
      obtain rfl := Option.some.inj hx
      rw [stalls]
      simp
  | case2 => cases hx
  | case3 tmp list results ih =>
      rw [stalls]
      exact ih hx
  | case4 tmp list results =>
      obtain rfl := Option.some.inj hx
      rfl
  | case5 tmp list text results =>
      obtain rfl := Option.some.inj hx
      rfl
  | case6 => cases hx
  | case7 tmp list n results hle hne =>
      obtain rfl := Option.some.inj hx
      rw [stalls, if_neg hne]
      rfl
  | case8 tmp list n results hle heq ih =>
      obtain ⟨y, hy, rfl⟩ := Option.map_eq_some_iff.mp hx
      have hstalls := ih hy
      rw [stalls, if_pos (not_not.mp heq)]
      exact hstalls

end Stalls

/-! ### When the assertions fail -/

section Assertions

variable {id : ℕ} {s : Socket} {accepted : List Package} {sent : List UInt8} {results : List WriteResult}
  {x : Outcome}

/-- The head of the list of low priority is taken to be written in part only if it is a user object. -/
theorem listUncomplete_iff (hraw : Untouched s.low) :
  listUncomplete s.low = false ↔ ∀ wb, s.low.head? = some wb → wb.userobject = true → wb.ptr = wb.buffer
  := by
  cases hlow : s.low with
  | nil => exact iff_of_true rfl nofun
  | cons tmp low =>
      rw [hlow] at hraw
      rw [listUncomplete_cons]
      constructor
      · intro hcomplete wb hwb _
        obtain rfl := Option.some.inj hwb
        simpa using hcomplete
      · intro hobject
        have hptr : tmp.ptr = tmp.buffer := by
          cases hkind : tmp.userobject with
          | true => exact hobject tmp rfl hkind
          | false => exact hraw tmp (.head _) hkind
        rw [decide_eq_true hptr]
        rfl

theorem Queue.size_of_empty (h : Queue s accepted sent) (hempty : s.sendBufferEmpty = true) :
  s.wbSize = 0
  := by
  rw [Socket.sendBufferEmpty, decide_eq_true_eq] at hempty
  have hsize := h.size
  rw [hempty.1, hempty.2] at hsize
  exact hsize

/-- Step 4 fails when something is left to be written. -/
theorem Socket.sendBufferDone_assertion (htype : s.type.alive = true)
    (hsize : s.sendBufferEmpty = true → s.wbSize = 0) {written : List UInt8} {rest : List WriteResult} :
  s.sendBufferDone written rest = .error .assertion ↔ ¬ s.sendBufferEmpty = true
  := by
  rw [Socket.sendBufferDone]
  split
  · next hnot => exact iff_of_true rfl fun hempty => hnot ⟨hempty, hsize hempty⟩
  · next hempty =>
      have hempty := (not_not.mp hempty).1
      refine iff_of_false ?_ (not_not.mpr hempty)
      split
      · rw [Socket.closeWith_of_alive htype]
        rintro ⟨⟩
      · split
        · rintro ⟨⟩
        · rintro ⟨⟩

/-- From step 2 on the assertions fail when something is left of the list of low priority that is not taken to be
written in part. -/
theorem Alive.sendBufferLow_assertion (h : Alive id s accepted sent) (hhigh : s.high = [])
    {written : List UInt8} {low : Sent} (hlow : sendListTcp s.low results = some low) :
  (let s₂ : Socket := { s with low := low.list, wbSize := s.wbSize - low.sent.length }
    if low.failed then s₂.closeWith (written ++ low.sent) low.rest (.close (s₂.message 0 none))
    else if listUncomplete s₂.low then
      match s₂.raiseUncomplete with
      | .ok s => .ok ⟨s, written ++ low.sent, false, false, low.rest, .none⟩
      | .error e => .error e
    else s₂.sendBufferDone (written ++ low.sent) low.rest) = .error .assertion ↔
    stallsLow s.low results = true
  := by
  let s₂ : Socket := { s with low := low.list, wbSize := s.wbSize - low.sent.length }
  have htype : s₂.type.alive = true := h.type
  dsimp only
  split
  · next hfailed =>
      rw [Socket.closeWith_of_alive htype, stallsLow_iff hlow, hfailed]
      exact iff_of_false (by rintro ⟨⟩) (by rintro ⟨⟨⟩, -⟩)
  · next hfailed =>
      have hfailed := Bool.eq_false_iff.mpr hfailed
      rw [stallsLow_iff hlow, hfailed]
      split
      · next huncomplete =>
          rw [huncomplete]
          refine iff_of_false ?_ (by rintro ⟨-, -, ⟨⟩⟩)
          rw [Socket.raiseUncomplete]
          cases hlist : low.list with
          | nil =>
              rw [hlist] at huncomplete
              cases huncomplete
          | cons tmp list =>
              dsimp only
              rw [if_pos hhigh]
              rintro ⟨⟩
      · next hcomplete =>
          have hempty : s₂.sendBufferEmpty = true ↔ low.list = [] := by
            rw [Socket.sendBufferEmpty, decide_eq_true_eq]
            exact and_iff_right hhigh
          have hsize : s₂.sendBufferEmpty = true → s₂.wbSize = 0 := by
            intro h₂
            have hlist := hempty.mp h₂
            have hdrained := h.queue.drained hhigh hlow hlist
            rw [hdrained.size, hhigh]
            rfl
          have hdone : s₂.sendBufferDone (written ++ low.sent) low.rest = .error .assertion ↔
              ¬ s₂.sendBufferEmpty = true := Socket.sendBufferDone_assertion htype hsize
          rw [hempty] at hdone
          apply hdone.trans
          rw [Bool.eq_false_iff.mpr hcomplete]
          simp

/-- The assertions of `send_buffer` fail when the head of the list of low priority is taken to be written in part, or
when the writes stop where it is not. -/
theorem Alive.sendBuffer_assertion (h : Alive id s accepted sent) (hfit : s.sendBuffer results ≠ .error .unfit) :
  s.sendBuffer results = .error .assertion ↔
    listUncomplete s.low = true ∨ stalls s.low s.high results = true
  := by
  have hsend : ∀ list results, sendList s.protocol list results = sendListTcp list results := by
    intro list results
    rw [h.protocol]
    rfl
  rw [Socket.sendBuffer] at hfit ⊢
  simp only [hsend] at hfit ⊢
  split
  · next hlow => exact iff_of_true rfl (.inl hlow)
  · next hlow =>
      rw [if_neg hlow] at hfit
      rw [or_iff_right hlow]
      cases hhigh : sendListTcp s.high results with
      | none =>
          rw [hhigh] at hfit
          exact absurd rfl hfit
      | some high =>
          rw [hhigh] at hfit
          rw [stalls_of_high hhigh]
          let s₁ : Socket := { s with high := high.list, wbSize := s.wbSize - high.sent.length }
          have h₁ : Alive id s₁ accepted (sent ++ high.sent) := ⟨h.id, h.protocol, h.type, h.queue.sendHigh hhigh⟩
          dsimp only at hfit ⊢
          split
          · next hfailed =>
              rw [hfailed, Bool.not_true, Bool.and_false, Bool.false_and]
              refine iff_of_false ?_ (by rintro ⟨⟩)
              exact Socket.closeWith_of_alive h₁.type high.sent high.rest _ ▸ (by rintro ⟨⟩)
          · next hfailed =>
              rw [if_neg hfailed] at hfit
              rw [Bool.eq_false_iff.mpr hfailed]
              split
              · next hempty =>
                  rw [if_pos hempty] at hfit
                  rw [decide_eq_true hempty, Bool.not_false, Bool.and_true, Bool.true_and]
                  split
                  · next hsome =>
                      rw [if_pos hsome] at hfit
                      cases hlow : sendListTcp s.low high.rest with
                      | none =>
                          rw [hlow] at hfit
                          exact absurd rfl hfit
                      | some low =>
                          exact h₁.sendBufferLow_assertion hempty hlow
                  · next hnone =>
                      have hnone := not_not.mp hnone
                      have hdone : s₁.sendBufferDone high.sent high.rest = .error .assertion ↔
                          ¬ s₁.sendBufferEmpty = true :=
                        Socket.sendBufferDone_assertion h₁.type h₁.queue.size_of_empty
                      apply hdone.trans
                      rw [hnone, stallsLow]
                      refine iff_of_false (not_not.mpr ?_) (by rintro ⟨⟩)
                      rw [Socket.sendBufferEmpty, decide_eq_true_eq]
                      exact ⟨hempty, hnone⟩
              · next hempty =>
                  rw [decide_eq_false hempty]
                  exact iff_of_false (by rintro ⟨⟩) (by rintro ⟨⟩)

/-- `close_socket` calls `send_buffer` if something is queued; the rest of it has no assertions. -/
theorem Alive.closeSocket_assertion (h : Alive id s accepted sent) {shutdown : Bool} {opaqueId : ℕ}
    (hfit : s.closeSocket id shutdown opaqueId results ≠ .error .unfit) :
  s.closeSocket id shutdown opaqueId results = .error .assertion ↔
    listUncomplete s.low = true ∨ stalls s.low s.high results = true
  := by
  have hfinish : ∀ {t : Socket} {written : List UInt8} {rest : List WriteResult} {reply : Reply},
      t.type.alive = true → (if shutdown = true ∨ t.sendBufferEmpty = true then t.closeWith written rest reply
        else .ok ⟨{ t with type := .halfclose }, written, false, false, rest, .none⟩) ≠ .error .assertion := by
    intro t written rest reply htype
    split
    · rw [Socket.closeWith_of_alive htype]
      rintro ⟨⟩
    · rintro ⟨⟩
  rw [Socket.closeSocket] at hfit ⊢
  dsimp only at hfit ⊢
  rw [if_neg h.valid] at hfit ⊢
  split
  · next hqueued =>
      rw [if_pos hqueued] at hfit
      cases hy : s.sendBuffer results with
      | error e =>
          rw [hy] at hfit
          rw [← h.sendBuffer_assertion (hy ▸ hfit), hy]
      | ok y =>
          have hfit' : s.sendBuffer results ≠ .error .unfit := hy ▸ (by rintro ⟨⟩)
          rw [← h.sendBuffer_assertion hfit', hy]
          refine iff_of_false ?_ (by rintro ⟨⟩)
          dsimp only
          obtain ⟨-, hbecomes, hreply⟩ := h.sendBuffer hy
          cases hbecomes with
          | alive hclosed halive htype =>
              rw [hclosed, if_neg (by rintro ⟨⟩)] at hreply
              rcases hreply with hreply | ⟨m, hreply⟩
              · rw [hreply]
                exact hfinish halive.type
              · rw [hreply]
                exact hfinish halive.type
          | gone hclosed hinvalid hwhole hcomplete =>
              rw [hclosed, if_pos rfl] at hreply
              obtain ⟨m, hreply⟩ := hreply
              rw [hreply]
              rintro ⟨⟩
  · next hempty =>
      refine iff_of_false (hfinish h.type) ?_
      rw [not_not, Socket.sendBufferEmpty, decide_eq_true_eq] at hempty
      rw [hempty.1, hempty.2, stalls, stallsLow]
      exact not_or.mpr ⟨by rintro ⟨⟩, by rintro ⟨⟩⟩

theorem Alive.sendSocket_fine (h : Alive id s accepted sent) {request : RequestSend} {priority : Priority} :
  s.sendSocket request priority results ≠ .error .assertion
  := by
  rw [Socket.sendSocket]
  split
  · rintro ⟨⟩
  · split
    · rintro ⟨⟩
    · split
      · cases results with
        | nil => rintro ⟨⟩
        | cons result rest =>
            cases result with
            | error text =>
                simp only [Socket.sendDirect, h.protocol]
                rw [Socket.closeWith_of_alive h.type]
                rintro ⟨⟩
            | _ =>
                simp only [Socket.sendDirect, h.protocol]
                split
                · rintro ⟨⟩
                · split
                  · rintro ⟨⟩
                  · rintro ⟨⟩
      · rintro ⟨⟩

theorem Alive.startSocket_fine (h : Alive id s accepted sent) {id' opaqueId : ℕ} {failure : Option String} :
  s.startSocket id' opaqueId failure ≠ .error .assertion
  := by
  unfold Socket.startSocket
  split
  · exact nofun
  · split
    · cases failure with
      | some text =>
          dsimp only
          rw [Socket.closeWith_of_alive h.type]
          exact nofun
      | none => exact nofun
    · split
      · exact nofun
      · exact nofun

theorem Alive.forwardMessageTcp_fine (h : Alive id s accepted sent) {result : ReadResult} :
  s.forwardMessageTcp result ≠ .error .assertion
  := by
  unfold Socket.forwardMessageTcp
  cases result with
  | again => exact nofun
  | error text =>
      dsimp only
      rw [Socket.closeWith_of_alive h.type]
      exact nofun
  | bytes data =>
      dsimp only
      split
      · exact nofun
      · split
        · rw [Socket.closeWith_of_alive h.type]
          exact nofun
        · split
          · exact nofun
          · exact nofun

theorem Alive.reportConnect_fine (h : Alive id s accepted sent) {failure peer : Option String} :
  s.reportConnect failure peer ≠ .error .assertion
  := by
  unfold Socket.reportConnect
  cases failure with
  | some text =>
      dsimp only
      rw [Socket.closeWith_of_alive h.type]
      exact nofun
  | none => exact nofun

end Assertions

namespace Connection

/-! ### Runs -/

/-- When `send_buffer` is called, the writes are smooth. -/
def SmoothStep (me : ℕ) (c : Connection) : Step → Prop
  | .writable results => Smooth c.socket results
  | .close id _ _ results => c.Holds me → id = me → Smooth c.socket results
  | _ => True

section Runs

variable {me : ℕ} {c c' : Connection}

theorem smooth_iff (h : Alive me c.socket c.accepted c.sent) (results : List WriteResult) :
  Smooth c.socket results ↔
    ¬ (listUncomplete c.socket.low = true ∨ stalls c.socket.low c.socket.high results = true)
  := by
  rw [Smooth, ← listUncomplete_iff h.queue.untouched, not_or, Bool.not_eq_true, Bool.not_eq_true]

/-- A function that has been called fails an assertion or not. -/
theorem finish_aborted {package : Option Package} {result : Except Fault Outcome}
    (hfinish : c.finish package result = some c') (haborted : c.aborted = false) :
  result ≠ .error .unfit ∧ (c'.aborted = false ↔ result ≠ .error .assertion)
  := by
  cases result with
  | error fault =>
      cases fault with
      | unfit => cases hfinish
      | assertion =>
          obtain rfl := Option.some.inj hfinish
          exact ⟨by rintro ⟨⟩, iff_of_false (by rintro ⟨⟩) fun hne => hne rfl⟩
  | ok x =>
      rw [finish] at hfinish
      split at hfinish
      · cases hfinish
      · obtain rfl := Option.some.inj hfinish
        exact ⟨by rintro ⟨⟩, iff_of_true haborted (by rintro ⟨⟩)⟩

/-- A step fails an assertion precisely when the writes it makes are not smooth. -/
theorem Good.step_aborted (h : Good me c) (haborted : c.aborted = false) {l : Step}
    (hstep : c.step me l = some c') :
  c'.aborted = false ↔ SmoothStep me c l
  := by
  cases l with
  | send request priority results =>
      obtain ⟨hguard, hstep⟩ := Option.ite_none_left_eq_some.mp hstep
      have hallowed := not_not.mp (not_or.mp hguard).2
      apply (finish_aborted hstep haborted).2.trans
      refine iff_of_true ?_ trivial
      by_cases hours : c.Holds me ∧ request.id = me
      · exact (h.held hours.1).1.sendSocket_fine
      · rw [Socket.sendSocket_stale (stale_of_not h hallowed hours)]
        exact nofun
  | close id shutdown opaqueId results =>
      obtain ⟨hguard, hstep⟩ := Option.ite_none_left_eq_some.mp hstep
      have hallowed := not_not.mp (not_or.mp hguard).2
      obtain ⟨hfit, hiff⟩ := finish_aborted hstep haborted
      apply hiff.trans
      by_cases hours : c.Holds me ∧ id = me
      · obtain ⟨hholds, rfl⟩ := hours
        have halive := (h.held hholds).1
        rw [Ne, halive.closeSocket_assertion hfit, ← smooth_iff halive]
        exact ⟨fun hsmooth _ _ => hsmooth, fun hsmooth => hsmooth hholds rfl⟩
      · rw [Socket.closeSocket_stale (stale_of_not h hallowed hours)]
        exact iff_of_true nofun fun hholds hid => absurd ⟨hholds, hid⟩ hours
  | start id opaqueId failure =>
      obtain ⟨hguard, hstep⟩ := Option.ite_none_left_eq_some.mp hstep
      have hallowed := not_not.mp (not_or.mp hguard).2
      apply (finish_aborted hstep haborted).2.trans
      refine iff_of_true ?_ trivial
      by_cases hours : c.Holds me ∧ id = me
      · exact (h.held hours.1).1.startSocket_fine
      · rw [Socket.startSocket_stale (stale_of_not h hallowed hours)]
        exact nofun
  | connected failure peer =>
      obtain ⟨hguard, hstep⟩ := Option.ite_none_left_eq_some.mp hstep
      obtain ⟨hholds, -⟩ := not_not.mp (not_or.mp hguard).2
      apply (finish_aborted hstep haborted).2.trans
      exact iff_of_true (h.held hholds).1.reportConnect_fine trivial
  | readable result =>
      obtain ⟨hguard, hstep⟩ := Option.ite_none_left_eq_some.mp hstep
      obtain ⟨hholds, -⟩ := not_not.mp (not_or.mp hguard).2
      apply (finish_aborted hstep haborted).2.trans
      exact iff_of_true (h.held hholds).1.forwardMessageTcp_fine trivial
  | writable results =>
      obtain ⟨hguard, hstep⟩ := Option.ite_none_left_eq_some.mp hstep
      obtain ⟨hholds, -⟩ := not_not.mp (not_or.mp hguard).2
      have halive := (h.held hholds).1
      obtain ⟨hfit, hiff⟩ := finish_aborted hstep haborted
      rw [hiff, SmoothStep, smooth_iff halive, Ne, halive.sendBuffer_assertion hfit]
  | others socket =>
      obtain ⟨-, hstep⟩ := Option.ite_none_left_eq_some.mp hstep
      obtain rfl := Option.some.inj hstep
      exact iff_of_true haborted trivial

end Runs

/-- No assertion fails in a run precisely when its writes are smooth whenever `send_buffer` is called. -/
theorem assertions_hold_iff {me : ℕ} {s : Socket} (hs : Made me s) (ls : List Step) :
  (machine me).Always (fun c => c.aborted = false) (start s) ls ↔
    (machine me).Guarded (SmoothStep me) (start s) ls
  := by
  have hstart : Good me (start s) ∧ (start s).aborted = false := ⟨good_start hs, rfl⟩
  have hexact : (machine me).Always (fun c => Good me c ∧ c.aborted = false) (start s) ls ↔
      (machine me).Guarded (SmoothStep me) (start s) ls := by
    apply Machine.always_iff_guarded
    · intro c l c' hc hstep
      rw [← hc.1.step_aborted hc.2 hstep]
      exact and_iff_right (hc.1.step hstep)
    · exact hstart
  rw [← hexact]
  constructor
  · intro halways
    apply halways.strengthen
    · exact fun c l c' hc hstep haborted => ⟨hc.1.step hstep, haborted⟩
    · exact hstart
  · exact Machine.Always.mono fun c hc => hc.2

/-- A package of low priority is queued behind a part of another, and both are written at once. -/
theorem assertions_hold_smooth :
  (machine 1).Always (fun c => c.aborted = false) (start fresh)
    [.send ⟨1, 100, .raw [1, 2]⟩ .high [.count 1], .send ⟨1, 200, .raw [3]⟩ .low [], .writable [.count 1, .count 1]]
  := by
  apply (assertions_hold_iff made_fresh _).mpr
  refine .cons rfl trivial (.cons rfl trivial (.cons rfl ?_ trivial))
  constructor
  · intro wb hwb hobject
    obtain rfl := Option.some.inj hwb
    cases hobject
  · rfl

/-- If the second write stops before anything of the package of low priority, the assertion of step 4 fails; and the
first assertion fails if that package is a user object with its bytes at an address of their own. -/
theorem assertions_fail :
  (∃ c, (machine 1).exec (start fresh)
      [.send ⟨1, 100, .raw [1, 2]⟩ .high [.count 1], .send ⟨1, 200, .raw [3]⟩ .low [],
        .writable [.count 1, .again]] = some c ∧ c.aborted = true) ∧
    ∃ c, (machine 1).exec (start fresh)
      [.send ⟨1, 100, .raw [1, 2]⟩ .high [.count 1], .send ⟨1, 200, .object 900 [3]⟩ .low [],
        .writable []] = some c ∧ c.aborted = true
  := by
  constructor
  · have hrun : ((machine 1).exec (start fresh)
        [.send ⟨1, 100, .raw [1, 2]⟩ .high [.count 1], .send ⟨1, 200, .raw [3]⟩ .low [],
          .writable [.count 1, .again]]).map (fun c => c.aborted) = some true := by
      decide +kernel
    exact Option.map_eq_some_iff.mp hrun
  · have hrun : ((machine 1).exec (start fresh)
        [.send ⟨1, 100, .raw [1, 2]⟩ .high [.count 1], .send ⟨1, 200, .object 900 [3]⟩ .low [],
          .writable []]).map (fun c => c.aborted) = some true := by
      decide +kernel
    exact Option.map_eq_some_iff.mp hrun

end Connection

end Skynet
