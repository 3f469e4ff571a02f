import FWServer.Skynet.Scheduling

/-!
# The steps of the scheduler

What every instruction leads to: services that are sound, and instructions that are as they should be.
-/

namespace Skynet

namespace Scheduler

open Programs

/-! ### What holds for the sake of an instruction -/

/-- A worker has grabbed the context of the queue that it has. -/
structure Grabbed (w : Node) (q c : ℕ) : Prop where
  same : q = c
  created : (w.registry.life q).created = true
  init : w.init q = true

/-- What holds of a node for the sake of an instruction that is to be executed. -/
def Fits (w : Node) : Instr → Prop
  | .failRetire ctx handle => (w.registry.life ctx).given = some handle
  | .handleRetire handle => handle ≠ 0
  | .contextPush destination _ => destination ≠ 0
  | .mqPush ctx _ => (w.registry.life ctx).created = true
  | .contextUse handle => handle ≠ 0
  | .drop q => (w.queue q).release = true
  | .report q _ => (w.queue q).release = true
  | .free q => (w.queue q).release = true ∧ (w.queue q).inGlobal = false
  | .mqPop _ q ctx _ _ => Grabbed w q ctx
  | .mqLength _ q ctx _ => Grabbed w q ctx
  | .dispatchMessage _ q ctx _ _ _ => Grabbed w q ctx
  | .nextQueue _ q ctx => Grabbed w q ctx
  | .pushBack _ q ctx _ => Grabbed w q ctx
  | _ => True

/-- What steps do not undo. -/
structure Later (w w' : Node) : Prop where
  given : ∀ c handle, (w.registry.life c).given = some handle → (w'.registry.life c).given = some handle
  created : ∀ c, (w.registry.life c).created = true → (w'.registry.life c).created = true
  init : ∀ c, (w.registry.life c).created = true → w.init c = true → w'.init c = true
  release : ∀ q, (w.queue q).release = true → (w'.queue q).release = true
  drained : ∀ q, (w.queue q).release = true → (w.queue q).inGlobal = false → (w'.queue q).inGlobal = false

section Later

variable {w w' w'' : Node} {q : ℕ}

/-- What holds for the sake of an instruction goes on to hold. -/
theorem Fits.later {i : Instr} (h : Fits w i) (hw : Later w w') :
  Fits w' i
  := by
  have hgrabbed : ∀ q c, Grabbed w q c → Grabbed w' q c := by
    rintro q c ⟨hsame, hcreated, hinit⟩
    exact ⟨hsame, hw.created q hcreated, hw.init q hcreated hinit⟩
  cases i with
  | failRetire c handle => exact hw.given c handle h
  | handleRetire handle => exact h
  | contextPush destination message => exact h
  | mqPush c message => exact hw.created c h
  | contextUse handle => exact h
  | drop q => exact hw.release q h
  | report q message => exact hw.release q h
  | free q => exact ⟨hw.release q h.1, hw.drained q h.1 h.2⟩
  | mqPop weight q c i n => exact hgrabbed q c h
  | mqLength weight q c message => exact hgrabbed q c h
  | dispatchMessage weight q c message i n => exact hgrabbed q c h
  | nextQueue weight q c => exact hgrabbed q c h
  | pushBack weight q c nq => exact hgrabbed q c h
  | _ => trivial

theorem Later.refl (w : Node) :
  Later w w
  := ⟨fun _ _ => id, fun _ => id, fun _ _ => id, fun _ => id, fun _ _ => id⟩

theorem Later.trans (h : Later w w') (h' : Later w' w'') :
  Later w w''
  := by
  constructor
  · exact fun c handle hc => h'.given c handle (h.given c handle hc)
  · exact fun c hc => h'.created c (h.created c hc)
  · exact fun c hc hinit => h'.init c (h.created c hc) (h.init c hc hinit)
  · exact fun q hq => h'.release q (h.release q hq)
  · exact fun q hq hglobal => h'.drained q (h.release q hq) (h.drained q hq hglobal)

/-- A step that changes at most one queue. -/
theorem Later.of_queue (hregistry : w'.registry = w.registry) (hinit : w'.init = w.init) {queue : MessageQueue}
    (hqueue : w'.queue = Function.update w.queue q queue)
    (hrelease : (w.queue q).release = true → queue.release = true)
    (hdrained : (w.queue q).release = true → (w.queue q).inGlobal = false → queue.inGlobal = false) :
  Later w w'
  := by
  constructor
  · rw [hregistry]
    exact fun _ _ => id
  · rw [hregistry]
    exact fun _ => id
  · rw [hinit]
    exact fun _ _ => id
  · rw [hqueue]
    exact Node.forall_update (P := fun x y => x.release = true → y.release = true) (fun _ => id) hrelease
  · rw [hqueue]
    exact Node.forall_update
      (P := fun x y => x.release = true → x.inGlobal = false → y.inGlobal = false) (fun _ _ => id) hdrained

/-- A step that changes neither the table nor the queues. -/
theorem Later.of_same (hregistry : w'.registry = w.registry) (hinit : w'.init = w.init)
    (hqueue : w'.queue = w.queue) :
  Later w w'
  := by
  apply Later.of_queue (q := 0) hregistry hinit _ id (fun _ => id)
  rw [hqueue, Function.update_eq_self]

/-! ### What the functions leave as it is -/

@[simp]
theorem Node.registry_globalmqPush (w : Node) (q : ℕ) :
  (w.globalmqPush q).registry = w.registry
  := by
  unfold Node.globalmqPush
  dsimp only
  split <;> rfl

@[simp]
theorem Node.init_globalmqPush (w : Node) (q : ℕ) :
  (w.globalmqPush q).init = w.init
  := by
  unfold Node.globalmqPush
  dsimp only
  split <;> rfl

@[simp]
theorem Node.queue_globalmqPush (w : Node) (q : ℕ) :
  (w.globalmqPush q).queue = w.queue
  := by
  unfold Node.globalmqPush
  dsimp only
  split <;> rfl

theorem later_globalmqPush (w : Node) (q : ℕ) :
  Later w (w.globalmqPush q)
  := Later.of_same (w.registry_globalmqPush q) (w.init_globalmqPush q) (w.queue_globalmqPush q)

/-- A step that changes one queue, and may put it in the global queue. -/
theorem later_globalmqPush_if {w₁ : Node} (b : Bool) (q : ℕ) (h : Later w w₁) :
  Later w (if b then w₁ else w₁.globalmqPush q)
  := by
  cases b with
  | true => exact h
  | false => exact h.trans (later_globalmqPush w₁ q)

theorem later_mqPush {c : ℕ} (hrelease : (w.queue c).release = false) (message : Message) :
  Later w (w.mqPush c message)
  := by
  have hdrained : (w.queue c).release = true → (w.queue c).inGlobal = false →
      ((w.queue c).push message).inGlobal = false := by
    rw [hrelease]
    exact nofun
  apply later_globalmqPush_if
  exact Later.of_queue rfl rfl rfl id hdrained

theorem later_mqMarkRelease (w : Node) (q : ℕ) :
  Later w (w.mqMarkRelease q)
  := by
  apply later_globalmqPush_if
  exact Later.of_queue rfl rfl rfl (fun _ => rfl) fun _ => id

theorem later_handleRetire (w : Node) (handle : ℕ) :
  Later w (w.handleRetire handle).1
  := by
  constructor
  · intro c handle' hc
    exact (given_retire _ _ _).trans hc
  · intro c hc
    exact (created_retire _ _ _).trans hc
  · exact fun _ _ => id
  · exact fun _ => id
  · exact fun _ _ => id

end Later

/-! ### What an instruction leads to -/

/-- What is executed leads to a node and to instructions that are as they should be. -/
structure Leads (w : Node) (t : Multiset Token) (x : Node × List Instr) : Prop where
  inv : Inv x.1 ((x.2.map Instr.tokens).sum + t)
  fits : ∀ j ∈ x.2, Fits x.1 j
  later : Later w x.1

section Leads

variable {w w' : Node} {t : Multiset Token} {c q : ℕ} {message : Message}

theorem Leads.of_nil (h : Inv w' t) (hlater : Later w w') :
  Leads w t (w', [])
  := by
  constructor
  · simpa using h
  · exact fun j hj => absurd hj List.not_mem_nil
  · exact hlater

theorem Leads.of_singleton {j : Instr} (h : Inv w' (j.tokens + t)) (hfits : Fits w' j) (hlater : Later w w') :
  Leads w t (w', [j])
  := by
  constructor
  · simpa using h
  · intro i hi
    rw [List.mem_singleton.mp hi]
    exact hfits
  · exact hlater

/-- What is executed leads to more, when there is more to execute. -/
theorem Leads.append {x : Node × List Instr} {js : List Instr} (h : Leads w ((js.map Instr.tokens).sum + t) x)
    (hfits : ∀ j ∈ js, Fits x.1 j) :
  Leads w t (x.1, x.2 ++ js)
  := by
  constructor
  · have hinv := h.inv
    rw [List.map_append, List.sum_append, add_assoc]
    exact hinv
  · intro j hj
    rcases List.mem_append.mp hj with hj | hj
    · exact h.fits j hj
    · exact hfits j hj
  · exact h.later

theorem leads_contextRelease (h : Inv w (.ref c ::ₘ t)) :
  Leads w t (w.contextRelease c)
  := by
  constructor
  · exact h.contextRelease
  · intro j hj
    unfold Node.contextRelease at hj
    dsimp only at hj
    split at hj
    · rw [List.mem_singleton.mp hj]
      trivial
    · cases hj
  · exact Later.of_same rfl rfl rfl

theorem leads_handleRetire (h : Inv w t) {handle : ℕ} (hne : handle ≠ 0) :
  Leads w t (w.handleRetire handle)
  := by
  constructor
  · exact h.handleRetire hne
  · intro j hj
    unfold Node.handleRetire at hj
    dsimp only at hj
    split at hj
    · cases hj
    · rw [List.mem_singleton.mp hj]
      trivial
  · exact later_handleRetire w handle

theorem leads_mqRelease (h : Inv w (.hold q ::ₘ t)) :
  Leads w t (w.mqRelease q)
  := by
  obtain ⟨hfrees, -⟩ := h.held (Multiset.mem_cons_self _ _)
  unfold Node.mqRelease
  rw [Node.touch_of_there hfrees]
  split
  · next hrelease =>
      refine Leads.of_singleton ?_ (by exact hrelease) (.refl w)
      simpa [Instr.tokens] using h
  · exact Leads.of_nil h.globalmqPush (later_globalmqPush w q)

theorem leads_contextPush (h : Inv w t) {destination : ℕ} (hne : destination ≠ 0) (message : Message) :
  Leads w t (w.contextPush destination message)
  := by
  unfold Node.contextPush
  obtain hgrab | ⟨c, hgrab, hlife, hinv⟩ := h.handleGrab hne
  · rw [hgrab]
    exact Leads.of_nil h (.refl w)
  · rw [hgrab]
    apply Leads.of_singleton
    · simpa [Instr.tokens] using hinv
    · change (w.registry.life c).created = true
      rw [hlife]
      rfl
    · exact Later.of_same rfl rfl rfl

theorem leads_send (h : Inv w t) (x : Send) :
  Leads w t (w.send x)
  := by
  unfold Node.send
  split
  · exact Leads.of_nil h (.refl w)
  · next hne =>
      split
      · exact Leads.of_nil h (.refl w)
      · exact leads_contextPush h hne _

theorem Inv.handle_ne_zero (h : Inv w t) (hcreated : (w.registry.life q).created = true) :
  (w.queue q).handle ≠ 0
  := by
  obtain ⟨hgiven, hhandle⟩ := h.handles q hcreated
  rw [hhandle]
  exact h.nonzero q _ hgiven

theorem leads_dropMessage (h : Inv w (.hand q message ::ₘ .hold q ::ₘ t)) (hhands : owned (Token.messages q) t = 0)
    (hrelease : (w.queue q).release = true) :
  Leads w (.hold q ::ₘ t) (w.dropMessage q message)
  := by
  obtain ⟨-, -, hcreated⟩ := h.held (q := q) (by simp)
  have hdrop := h.drop (by simpa [Token.messages] using hhands) hrelease
  have hsend := leads_send hdrop (Node.errorTo (w.queue q).handle message)
  unfold Node.dropMessage
  dsimp only
  rw [Node.assert_of_true (decide_eq_true (h.handle_ne_zero hcreated))]
  refine ⟨hsend.inv, hsend.fits, .trans ?_ hsend.later⟩
  exact Later.of_same rfl rfl rfl

/-! ### The creation of a service -/

theorem leads_contextNew (h : Inv w t) (hunborn : w.registry.life c = .unborn) (hok : Harmless w (.contextNew c))
    {registry : Registry} (hregister : w.registry.register c = some registry) :
  Leads w t ({ w with
    registry := registry
    ref := Function.update w.ref c 2
    init := Function.update w.init c false }, [.mqCreate c])
  := by
  have hinv := h.contextNew hunborn hok hregister
  obtain ⟨handle, storage, rfl⟩ := register_cases hregister hinv.good.asserted
  have hother : ∀ d, (w.registry.life d).given ≠ none → d ≠ c := by
    rintro d hd rfl
    rw [hunborn] at hd
    exact hd rfl
  have hcreated : ∀ d, (w.registry.life d).created = true → d ≠ c := by
    rintro d hd rfl
    rw [hunborn] at hd
    cases hd
  apply Leads.of_singleton
  · simpa [Instr.tokens] using hinv
  · trivial
  · constructor
    · intro d handle' hd
      dsimp only
      rw [Function.update_of_ne (hother d (hd ▸ (by rintro ⟨⟩)))]
      exact hd
    · intro d hd
      dsimp only
      rw [Function.update_of_ne (hcreated d hd)]
      exact hd
    · intro d hd hinit
      dsimp only
      rw [Function.update_of_ne (hcreated d hd)]
      exact hinit
    · exact fun _ => id
    · exact fun _ _ => id

theorem leads_mqCreate (h : Inv w (.ref c ::ₘ .creating c ::ₘ t)) {handle : ℕ}
    (hlife : w.registry.life c = .registered handle) :
  Leads w t ({ w with
    registry := w.registry.assign c handle
    queue := Function.update w.queue c (.create handle) }, [.instanceInit c])
  := by
  obtain ⟨-, hrelease⟩ := h.used (Multiset.mem_cons_self _ _)
  have hqueue : ∀ q, (w.queue q).release = true → q ≠ c := by
    rintro q hq rfl
    cases hrelease.symm.trans hq
  apply Leads.of_singleton
  · simpa [Instr.tokens] using h.mqCreate hlife
  · trivial
  · constructor
    · intro d handle' hd
      dsimp only [Registry.assign]
      rcases eq_or_ne d c with rfl | hne
      · rw [hlife] at hd
        rw [Function.update_self]
        exact hd
      · rw [Function.update_of_ne hne]
        exact hd
    · intro d hd
      dsimp only [Registry.assign]
      rcases eq_or_ne d c with rfl | hne
      · rw [Function.update_self]
        rfl
      · rw [Function.update_of_ne hne]
        exact hd
    · exact fun _ _ => id
    · intro q hq
      dsimp only
      rw [Function.update_of_ne (hqueue q hq)]
      exact hq
    · intro q hq hglobal
      dsimp only
      rw [Function.update_of_ne (hqueue q hq)]
      exact hglobal

/-- A context that has been deleted is not in the table. -/
theorem Inv.listed_of_marks (h : Inv w (.mark c ::ₘ t)) :
  (w.registry.life c).listed = false
  := by
  have hpos : 0 < (w.service (.mark c ::ₘ t) c).marks := by simp [Node.service]
  exact ((h.sound c).release_of_marks hpos).2.2.2.2

/-- The thread that creates a service gives up its reference, and what is left of the service is launched. -/
theorem leads_launched (h : Inv w (.ref c ::ₘ .hold c ::ₘ .young c ::ₘ t)) :
  Leads w t (w.launched c)
  := by
  rw [Multiset.cons_swap (Token.hold c)] at h
  have hinv := h.contextRelease
  unfold Node.contextRelease at hinv
  unfold Node.launched Node.contextRelease
  dsimp only at hinv ⊢
  by_cases hzero : w.ref c - 1 = 0
  · rw [if_pos hzero] at hinv ⊢
    rw [List.map_singleton, List.sum_singleton, Instr.tokens, Multiset.singleton_add] at hinv
    have hlisted := hinv.listed_of_marks
    rw [Multiset.cons_swap] at hinv
    have hsettle := hinv.settle (w.init c) fun hlife => by
      cases hlisted.symm.trans hlife
    constructor
    · simpa [Instr.tokens] using hsettle
    · intro j hj
      rcases List.mem_cons.mp hj with rfl | hj
      · trivial
      · rw [List.mem_singleton.mp hj]
        trivial
    · exact Later.of_same rfl rfl rfl
  · rw [if_neg hzero] at hinv ⊢
    rw [List.map_nil, List.sum_nil, zero_add] at hinv
    have hsettle := hinv.settle true fun _ => rfl
    apply Leads.of_singleton
    · simpa [Instr.tokens] using hsettle
    · trivial
    · constructor
      · exact fun _ _ => id
      · exact fun _ => id
      · intro d _ hinit
        dsimp only
        rcases eq_or_ne d c with rfl | hne
        · exact Function.update_self _ _ _
        · rw [Function.update_of_ne hne]
          exact hinit
      · exact fun _ => id
      · exact fun _ _ => id

theorem leads_failRelease (h : Inv w (.ref c ::ₘ .hold c ::ₘ .young c ::ₘ t)) :
  Leads w t ((w.contextRelease c).1, (w.contextRelease c).2 ++ [.failRetire c (w.registry.handle c)])
  := by
  obtain ⟨-, -, hcreated⟩ := h.held (q := c) (by simp)
  apply Leads.append
  · apply leads_contextRelease
    simpa [Instr.tokens] using h
  · intro j hj
    rw [List.mem_singleton.mp hj]
    exact (h.handles c hcreated).1

/-- No context has a handle that has been retired. -/
theorem listed_retire {r : Registry} {handle : ℕ} (hcreated : (r.life c).created = true)
    (hgiven : (r.life c).given = some handle) :
  ((r.retire handle).life c).listed = false
  := by
  rw [Registry.retire_life]
  split
  · rfl
  · next hlife =>
      cases hc : r.life c with
      | retired handle' => rfl
      | live handle' =>
          rw [hc] at hgiven hlife
          rw [Option.some.inj hgiven] at hlife
          exact absurd rfl hlife
      | unborn =>
          rw [hc] at hcreated
          cases hcreated
      | registered handle' =>
          rw [hc] at hcreated
          cases hcreated

/-- The service that has not been initialised is retired. -/
theorem leads_failRetire (h : Inv w (.hold c ::ₘ .young c ::ₘ t)) {handle : ℕ}
    (hgiven : (w.registry.life c).given = some handle) :
  Leads w t ((w.handleRetire handle).1, (w.handleRetire handle).2 ++ [.failDrop c])
  := by
  have hne := h.nonzero c handle hgiven
  obtain ⟨-, -, hcreated⟩ := h.held (Multiset.mem_cons_self _ _)
  have hlisted := listed_retire hcreated hgiven
  rw [Multiset.cons_swap] at h
  have hretire := leads_handleRetire h hne
  have hinv := hretire.inv
  rw [Multiset.add_cons] at hinv
  have hsettle := hinv.settle (w.init c) fun hlife => by
    cases hlisted.symm.trans hlife
  have hsame : Function.update (w.handleRetire handle).1.init c (w.init c) = (w.handleRetire handle).1.init :=
    Function.update_eq_self c w.init
  rw [hsame] at hsettle
  have hleads : Leads w (.hold c ::ₘ t) (w.handleRetire handle) := ⟨hsettle, hretire.fits, hretire.later⟩
  apply Leads.append
  · simpa [Instr.tokens] using hleads
  · intro j hj
    rw [List.mem_singleton.mp hj]
    trivial

/-! ### What the other instructions own -/

/-- Who has a message of a queue in the hands, or creates a service, owns the queue. -/
structure Bundled (t : Multiset Token) : Prop where
  hand : ∀ q message, .hand q message ∈ t → .hold q ∈ t
  young : ∀ q, .young q ∈ t → .hold q ∈ t

theorem bundled (todo : Multiset Instr) :
  Bundled (owned Instr.tokens todo)
  := by
  constructor
  · intro q message hx
    obtain ⟨i, hi, hx⟩ := mem_owned.mp hx
    apply mem_owned.mpr
    use i, hi
    cases i <;> simp_all [Instr.tokens]
  · intro q hx
    obtain ⟨i, hi, hx⟩ := mem_owned.mp hx
    apply mem_owned.mpr
    use i, hi
    cases i <;> simp_all [Instr.tokens]

/-- A queue is owned once. -/
theorem Inv.count_hold (h : Inv w t) (q : ℕ) :
  w.global.count q + t.count (.hold q) ≤ 1
  := (h.sound q).once

/-- The owner of a queue is the only one to have anything to do with it. -/
theorem Inv.alone {s : Multiset Token} (h : Inv w (s + t)) (hs : .hold q ∈ s) (ht : Bundled t) :
  owned (Token.messages q) t = 0 ∧ t.count (.young q) = 0
  := by
  have hone := h.count_hold q
  have hpos : 0 < s.count (.hold q) := Multiset.count_pos.mpr hs
  rw [Multiset.count_add] at hone
  have hnot : .hold q ∉ t := by
    apply Multiset.count_eq_zero.mp
    omega
  constructor
  · apply owned_eq_zero
    intro x hx
    cases x with
    | hand q' message =>
        apply if_neg
        rintro rfl
        exact hnot (ht.hand q' message hx)
    | _ => rfl
  · apply Multiset.count_eq_zero.mpr
    exact fun hx => hnot (ht.young q hx)

/-! ### What the instructions do -/

variable {ok : Bool} {x : Node × List Instr}

theorem performs_contextNew (h : Inv w ((Instr.contextNew c).tokens + t)) (hok : Harmless w (.contextNew c))
    (hx : w.perform ok (.contextNew c) = some x) :
  Leads w t x
  := by
  rw [Node.perform] at hx
  split at hx
  · next hunborn =>
      obtain ⟨registry, hregister, rfl⟩ := Option.map_eq_some_iff.mp hx
      rw [Instr.tokens, zero_add] at h
      exact leads_contextNew h hunborn hok hregister
  · cases hx

theorem performs_mqCreate (h : Inv w ((Instr.mqCreate c).tokens + t)) (hx : w.perform ok (.mqCreate c) = some x) :
  Leads w t x
  := by
  rw [Node.perform] at hx
  split at hx
  · next handle hlife =>
      obtain rfl := Option.some.inj hx
      apply leads_mqCreate _ hlife
      simpa [Instr.tokens] using h
  · cases hx

theorem performs_instanceInit (h : Inv w ((Instr.instanceInit c).tokens + t))
    (hx : w.perform ok (.instanceInit c) = some x) :
  Leads w t x
  := by
  rw [Node.perform] at hx
  obtain rfl := Option.some.inj hx
  cases ok with
  | true => exact .of_singleton h trivial (.refl w)
  | false => exact .of_singleton h trivial (.refl w)

theorem performs_contextUse (h : Inv w t) {handle : ℕ} (hne : handle ≠ 0)
    (hx : w.perform ok (.contextUse handle) = some x) :
  Leads w t x
  := by
  rw [Node.perform] at hx
  obtain hgrab | ⟨c, hgrab, hlife, hinv⟩ := h.handleGrab hne
  · rw [hgrab] at hx
    obtain rfl := Option.some.inj hx
    exact .of_nil h (.refl w)
  · rw [hgrab] at hx
    obtain rfl := Option.some.inj hx
    apply Leads.of_singleton
    · simpa [Instr.tokens] using hinv
    · trivial
    · exact .of_same rfl rfl rfl

theorem performs_mqPush (h : Inv w ((Instr.mqPush c message).tokens + t)) (hfits : Fits w (.mqPush c message))
    (hx : w.perform ok (.mqPush c message) = some x) :
  Leads w t x
  := by
  rw [Node.perform] at hx
  obtain rfl := Option.some.inj hx
  rw [Instr.tokens, Multiset.singleton_add] at h
  obtain ⟨-, hrelease⟩ := h.used (Multiset.mem_cons_self _ _)
  apply Leads.of_singleton
  · simpa [Instr.tokens] using h.mqPush hfits message
  · trivial
  · exact later_mqPush hrelease message

/-! ### What is done to a queue that is dropped -/

theorem performs_drop (h : Inv w ((Instr.drop q).tokens + t)) (ht : Bundled t) (hfits : Fits w (.drop q))
    (hx : w.perform ok (.drop q) = some x) :
  Leads w t x
  := by
  obtain ⟨hhands, -⟩ := h.alone (q := q) (by simp [Instr.tokens]) ht
  rw [Node.perform] at hx
  rw [Instr.tokens, Multiset.singleton_add] at h
  obtain ⟨hmessages, hpop⟩ | ⟨message, queue, hpop, hrelease, hglobal, hinv⟩ := h.mqPop hhands
  · rw [hpop] at hx
    obtain rfl := Option.some.inj hx
    apply Leads.of_singleton
    · simpa [Instr.tokens] using h.drain hmessages hfits
    · simpa [Fits] using hfits
    · exact .of_queue rfl rfl rfl id fun _ _ => rfl
  · rw [hpop] at hx
    obtain rfl := Option.some.inj hx
    apply Leads.of_singleton
    · simpa [Instr.tokens] using hinv
    · simpa [Fits, hrelease] using hfits
    · exact .of_queue rfl rfl rfl (fun hq => hrelease.trans hq) fun _ hq => hglobal.trans hq

theorem performs_report (h : Inv w ((Instr.report q message).tokens + t)) (ht : Bundled t)
    (hfits : Fits w (.report q message)) (hx : w.perform ok (.report q message) = some x) :
  Leads w t x
  := by
  obtain ⟨hhands, -⟩ := h.alone (q := q) (by simp [Instr.tokens]) ht
  rw [Node.perform] at hx
  obtain rfl := Option.some.inj hx
  have hinv : Inv w (.hand q message ::ₘ .hold q ::ₘ t) := by simpa [Instr.tokens] using h
  have hdrop := leads_dropMessage hinv hhands hfits
  apply Leads.append (x := w.dropMessage q message)
  · simpa [Instr.tokens] using hdrop
  · intro j hj
    rw [List.mem_singleton.mp hj]
    exact hdrop.later.release q hfits

theorem performs_free (h : Inv w ((Instr.free q).tokens + t)) (ht : Bundled t) (hfits : Fits w (.free q))
    (hx : w.perform ok (.free q) = some x) :
  Leads w t x
  := by
  obtain ⟨hhands, -⟩ := h.alone (q := q) (by simp [Instr.tokens]) ht
  rw [Node.perform] at hx
  obtain rfl := Option.some.inj hx
  rw [Instr.tokens, Multiset.singleton_add] at h
  exact .of_nil (h.release hfits.1 hfits.2 hhands) (.of_same rfl rfl rfl)

/-! ### What a worker does -/

theorem performs_worker (h : Inv w t) {weight : ℤ} (hx : w.perform ok (.worker weight) = some x) :
  Leads w t x
  := by
  rw [Node.perform] at hx
  obtain hpop | ⟨q, global, hpop, hinv⟩ := h.globalmqPop
  · rw [hpop] at hx
    obtain rfl := Option.some.inj hx
    apply Leads.of_singleton
    · simpa [Instr.tokens] using h
    · trivial
    · exact .refl w
  · rw [hpop] at hx
    obtain rfl := Option.some.inj hx
    apply Leads.of_singleton
    · simpa [Instr.tokens] using hinv
    · trivial
    · exact .of_same rfl rfl rfl

/-- A context that can be found by the handle of a queue that a worker has is the context of the queue, and has been
initialised. -/
theorem Inv.grabbed (h : Inv w (.hold q ::ₘ t)) (ht : Bundled t)
    (hlife : w.registry.life c = .live (w.queue q).handle) :
  Grabbed w q c
  := by
  obtain ⟨hfrees, -, hcreated⟩ := h.held (Multiset.mem_cons_self _ _)
  obtain ⟨hgiven, hhandle⟩ := h.handles q hcreated
  have hlisted : (w.registry.life c).listed = true := by
    rw [hlife]
    rfl
  have hfreec : w.frees c = 0 := (h.sound c).frees_of_listed hlisted
  obtain rfl : q = c := h.distinct q c _ hgiven (by rw [hlife, hhandle]; rfl) hfrees hfreec
  refine ⟨rfl, hcreated, ?_⟩
  -- nobody is about to end its creation, as the worker has the queue
  obtain ⟨-, hyoung⟩ := Inv.alone (s := {.hold q}) (by simpa using h) (Multiset.mem_singleton_self _) ht
  by_contra hinit
  have hone : 1 ≤ (Token.hold q ::ₘ t).count (.young q) :=
    (h.sound q).young hcreated hlisted (Bool.not_eq_true _ ▸ hinit)
  simp [hyoung] at hone

theorem performs_handleGrab (h : Inv w (.hold q ::ₘ t)) (ht : Bundled t) {weight : ℤ}
    (hx : w.perform ok (.handleGrab weight q) = some x) :
  Leads w t x
  := by
  obtain ⟨hfrees, -, hcreated⟩ := h.held (Multiset.mem_cons_self _ _)
  rw [Node.perform, Node.touch_of_there hfrees] at hx
  obtain hgrab | ⟨c, hgrab, hlife, hinv⟩ := h.handleGrab (h.handle_ne_zero hcreated)
  · rw [hgrab] at hx
    obtain rfl := Option.some.inj hx
    constructor
    · simpa [Instr.tokens] using h
    · simp [Fits]
    · exact .refl w
  · have hgrabbed := h.grabbed ht hlife
    obtain rfl := hgrabbed.same
    rw [hgrab] at hx
    obtain rfl := Option.some.inj hx
    apply Leads.of_singleton
    · rw [Multiset.cons_swap] at hinv
      simpa [Instr.tokens] using hinv
    · exact ⟨rfl, hgrabbed.created, hgrabbed.init⟩
    · exact .of_same rfl rfl rfl

theorem performs_mqPop {weight : ℤ} {i n : ℕ} (h : Inv w (.hold q ::ₘ .ref c ::ₘ t)) (ht : Bundled t)
    (hfits : Grabbed w q c) (hx : w.perform ok (.mqPop weight q c i n) = some x) :
  Leads w t x
  := by
  obtain rfl := hfits.same
  obtain ⟨hhands, -⟩ := Inv.alone (s := {.hold q, .ref q}) (by simpa using h) (Multiset.mem_cons_self _ _) ht
  rw [Node.perform] at hx
  obtain ⟨hmessages, hpop⟩ | ⟨message, queue, hpop, hrelease, hglobal, hinv⟩ :=
    h.mqPop (by simpa [Token.messages] using hhands)
  · rw [hpop] at hx
    obtain rfl := Option.some.inj hx
    constructor
    · simpa [Instr.tokens] using h.leave hmessages
    · simp [Fits]
    · exact .of_queue rfl rfl rfl id fun _ _ => rfl
  · have hlater : Later w { w with queue := Function.update w.queue q queue } :=
      .of_queue rfl rfl rfl (fun hq => hrelease.trans hq) fun _ hq => hglobal.trans hq
    rw [hpop] at hx
    dsimp only at hx
    split at hx
    · obtain rfl := Option.some.inj hx
      apply Leads.of_singleton
      · simpa [Instr.tokens] using hinv
      · exact ⟨rfl, hfits.created, hfits.init⟩
      · exact hlater
    · obtain rfl := Option.some.inj hx
      apply Leads.of_singleton
      · simpa [Instr.tokens] using hinv
      · exact ⟨rfl, hfits.created, hfits.init⟩
      · exact hlater

theorem performs_mqLength {weight : ℤ} (h : Inv w ((Instr.mqLength weight q c message).tokens + t))
    (hfits : Grabbed w q c) (hx : w.perform ok (.mqLength weight q c message) = some x) :
  Leads w t x
  := by
  obtain ⟨hfrees, -⟩ := h.held (q := q) (by simp [Instr.tokens])
  rw [Node.perform, Node.touch_of_there hfrees] at hx
  obtain rfl := Option.some.inj hx
  exact .of_singleton h hfits (.refl w)

theorem performs_dispatchMessage {weight : ℤ} {i n : ℕ} (h : Inv w (.hand q message ::ₘ .hold q ::ₘ .ref c ::ₘ t))
    (ht : Bundled t) (hfits : Grabbed w q c) (hx : w.perform ok (.dispatchMessage weight q c message i n) = some x) :
  Leads w t x
  := by
  obtain rfl := hfits.same
  obtain ⟨hhands, -⟩ :=
    Inv.alone (q := q) (s := {.hand q message, .hold q, .ref q}) (by simpa using h) (by simp) ht
  rw [Node.perform, Node.assert_of_true hfits.init] at hx
  obtain rfl := Option.some.inj hx
  have hinv := h.dispatch hhands
  split
  · apply Leads.of_singleton
    · simpa [Instr.tokens] using hinv
    · exact ⟨rfl, hfits.created, hfits.init⟩
    · exact .of_same rfl rfl rfl
  · apply Leads.of_singleton
    · simpa [Instr.tokens] using hinv
    · exact ⟨rfl, hfits.created, hfits.init⟩
    · exact .of_same rfl rfl rfl

theorem performs_nextQueue {weight : ℤ} (h : Inv w (.hold q ::ₘ .ref c ::ₘ t)) (hfits : Grabbed w q c)
    (hx : w.perform ok (.nextQueue weight q c) = some x) :
  Leads w t x
  := by
  rw [Node.perform, Node.assert_of_true (decide_eq_true hfits.same)] at hx
  obtain hpop | ⟨nq, global, hpop, hinv⟩ := h.globalmqPop
  · rw [hpop] at hx
    obtain rfl := Option.some.inj hx
    constructor
    · rw [Multiset.cons_swap] at h
      simpa [Instr.tokens] using h
    · simp [Fits]
    · exact .refl w
  · rw [hpop] at hx
    obtain rfl := Option.some.inj hx
    apply Leads.of_singleton
    · rw [Multiset.cons_swap] at hinv
      simpa [Instr.tokens] using hinv
    · exact ⟨hfits.same, hfits.created, hfits.init⟩
    · exact .of_same rfl rfl rfl

theorem performs_pushBack {weight : ℤ} {nq : ℕ} (h : Inv w (.hold q ::ₘ .hold nq ::ₘ .ref c ::ₘ t))
    (hx : w.perform ok (.pushBack weight q c nq) = some x) :
  Leads w t x
  := by
  rw [Node.perform] at hx
  obtain rfl := Option.some.inj hx
  have hinv := h.globalmqPush
  rw [Multiset.cons_swap] at hinv
  constructor
  · simpa [Instr.tokens] using hinv
  · simp [Fits]
  · exact later_globalmqPush w q

/-- What any instruction does. -/
theorem leads_execute {i : Instr} {todo : Multiset Instr} (h : Inv w (owned Instr.tokens (i ::ₘ todo)))
    (hfits : Fits w i) (hok : Harmless w i) (hx : w.execute ok i = some x) :
  Leads w (owned Instr.tokens todo) x
  := by
  rw [owned_cons] at h
  have ht := bundled todo
  generalize owned Instr.tokens todo = t at h ht ⊢
  unfold Node.execute at hx
  split at hx
  · cases hx
  cases i with
  | contextNew c => exact performs_contextNew h hok hx
  | mqCreate c => exact performs_mqCreate h hx
  | instanceInit c => exact performs_instanceInit h hx
  | launched c =>
      obtain rfl := Option.some.inj hx
      exact leads_launched (by simpa [Instr.tokens] using h)
  | launchPush c =>
      obtain rfl := Option.some.inj hx
      exact .of_nil (Inv.globalmqPush (by simpa [Instr.tokens] using h)) (later_globalmqPush w c)
  | failRelease c =>
      obtain rfl := Option.some.inj hx
      exact leads_failRelease (by simpa [Instr.tokens] using h)
  | failRetire c handle =>
      obtain rfl := Option.some.inj hx
      exact leads_failRetire (by simpa [Instr.tokens] using h) hfits
  | failDrop c =>
      obtain rfl := Option.some.inj hx
      exact leads_mqRelease (by simpa [Instr.tokens] using h)
  | contextRelease c =>
      obtain rfl := Option.some.inj hx
      exact leads_contextRelease (by simpa [Instr.tokens] using h)
  | markRelease q =>
      obtain rfl := Option.some.inj hx
      exact .of_nil (Inv.mqMarkRelease (by simpa [Instr.tokens] using h)) (later_mqMarkRelease w q)
  | handleRetire handle =>
      obtain rfl := Option.some.inj hx
      exact leads_handleRetire (by simpa [Instr.tokens] using h) hfits
  | contextPush destination message =>
      obtain rfl := Option.some.inj hx
      exact leads_contextPush (by simpa [Instr.tokens] using h) hfits message
  | mqPush c message => exact performs_mqPush h hfits hx
  | contextUse handle => exact performs_contextUse (by simpa [Instr.tokens] using h) hfits hx
  | drop q => exact performs_drop h ht hfits hx
  | report q message => exact performs_report h ht hfits hx
  | free q => exact performs_free h ht hfits hx
  | worker weight => exact performs_worker (by simpa [Instr.tokens] using h) hx
  | handleGrab weight q => exact performs_handleGrab (by simpa [Instr.tokens] using h) ht hx
  | mqRelease q =>
      obtain rfl := Option.some.inj hx
      exact leads_mqRelease (by simpa [Instr.tokens] using h)
  | mqPop weight q c i n => exact performs_mqPop (by simpa [Instr.tokens] using h) ht hfits hx
  | mqLength weight q c message => exact performs_mqLength h hfits hx
  | dispatchMessage weight q c message i n =>
      exact performs_dispatchMessage (by simpa [Instr.tokens] using h) ht hfits hx
  | nextQueue weight q c => exact performs_nextQueue (by simpa [Instr.tokens] using h) hfits hx
  | pushBack weight q c nq => exact performs_pushBack (by simpa [Instr.tokens] using h) hx

end Leads

end Scheduler

end Skynet
