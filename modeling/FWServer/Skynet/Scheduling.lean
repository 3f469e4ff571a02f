import FWServer.Skynet.Scheduler
import FWServer.Skynet.ServiceLife

/-!
# Services in the hands of the threads

What the instructions yet to be executed own of the services, as tokens.  A node and the tokens of its threads
make up services (`Node.service`), and what an instruction does to a node it does to them as operations on
services do, so that they stay sound.
-/

namespace Skynet

namespace Scheduler

open Programs

/-! ### Tokens -/

/-- What is owned of a service: a reference to the context; the right to mark its queue; the queue; that the queue
is yet to be created; that the creation of the service is yet to end; a message out of the queue. -/
inductive Token where
  | ref (ctx : ℕ)
  | mark (q : ℕ)
  | hold (q : ℕ)
  | creating (ctx : ℕ)
  | young (ctx : ℕ)
  | hand (q : ℕ) (message : Message)
  deriving DecidableEq

/-- What an instruction owns. -/
def Instr.tokens : Instr → Multiset Token
  | .mqCreate ctx => {.ref ctx, .creating ctx}
  | .instanceInit ctx => {.ref ctx, .hold ctx, .young ctx}
  | .launched ctx => {.ref ctx, .hold ctx, .young ctx}
  | .launchPush ctx => {.hold ctx}
  | .failRelease ctx => {.ref ctx, .hold ctx, .young ctx}
  | .failRetire ctx _ => {.hold ctx, .young ctx}
  | .failDrop ctx => {.hold ctx}
  | .contextRelease ctx => {.ref ctx}
  | .markRelease q => {.mark q}
  | .mqPush ctx _ => {.ref ctx}
  | .drop q => {.hold q}
  | .report q message => {.hand q message, .hold q}
  | .free q => {.hold q}
  | .handleGrab _ q => {.hold q}
  | .mqRelease q => {.hold q}
  | .mqPop _ q ctx _ _ => {.hold q, .ref ctx}
  | .mqLength _ q ctx message => {.hand q message, .hold q, .ref ctx}
  | .dispatchMessage _ q ctx message _ _ => {.hand q message, .hold q, .ref ctx}
  | .nextQueue _ q ctx => {.hold q, .ref ctx}
  | .pushBack _ q ctx nq => {.hold q, .hold nq, .ref ctx}
  | .contextNew _ => 0
  | .handleRetire _ => 0
  | .contextPush _ _ => 0
  | .contextUse _ => 0
  | .worker _ => 0

/-- The messages of `q` that a token stands for. -/
def Token.messages (q : ℕ) : Token → Multiset Message
  | .hand q' message => if q' = q then {message} else 0
  | _ => 0

/-- What there is of a service. -/
def Node.service (w : Node) (t : Multiset Token) (c : ℕ) : Service where
  life := w.registry.life c
  ref := w.ref c
  refs := t.count (.ref c)
  marks := t.count (.mark c)
  init := w.init c
  creating := t.count (.creating c)
  young := t.count (.young c)
  release := (w.queue c).release
  inGlobal := (w.queue c).inGlobal
  inList := w.global.count c
  holds := t.count (.hold c)
  frees := w.frees c
  messages := (w.queue c).messages
  hands := owned (Token.messages c) t
  accepted := w.accepted c
  taken := (w.dispatched c).map Prod.snd ++ (w.dropped c).map Prod.fst

/-- What always holds of a node and the tokens of its threads. -/
structure Inv (w : Node) (t : Multiset Token) : Prop where
  good : w.registry.Good
  running : w.aborted = false
  untouched : w.dangling = false
  sound : ∀ c, (w.service t c).Sound
  handles : ∀ c, (w.registry.life c).created = true →
    (w.registry.life c).given = some (w.registry.handle c) ∧ (w.queue c).handle = w.registry.handle c
  nonzero : ∀ c handle, (w.registry.life c).given = some handle → handle ≠ 0
  distinct : ∀ c d handle, (w.registry.life c).given = some handle →
    (w.registry.life d).given = some handle → w.frees c = 0 → w.frees d = 0 → c = d
  own : ∀ q, ∀ x ∈ w.dispatched q, x.1 = q
  reported : ∀ q, ∀ x ∈ w.dropped q, x.2 = Node.errorTo (w.queue q).handle x.1
  dropped : ∀ q, w.dropped q ≠ [] → (w.queue q).release = true

section Inv

variable {w w' : Node} {t t' : Multiset Token} {c q : ℕ}

/-- A step that leaves the table, the counts of frees and the handles of the queues as they are. -/
theorem Inv.kept (h : Inv w t) (hregistry : w'.registry = w.registry) (hrunning : w'.aborted = false)
    (huntouched : w'.dangling = false) (hfrees : w'.frees = w.frees) (hdispatched : w'.dispatched = w.dispatched)
    (hdropped : w'.dropped = w.dropped) (hhandle : ∀ q, (w'.queue q).handle = (w.queue q).handle)
    (hrelease : ∀ q, (w.queue q).release = true → (w'.queue q).release = true)
    (hsound : ∀ c, (w'.service t' c).Sound) :
  Inv w' t'
  := by
  constructor
  · rw [hregistry]
    exact h.good
  · exact hrunning
  · exact huntouched
  · exact hsound
  · intro c hc
    rw [hregistry] at hc ⊢
    rw [hhandle]
    exact h.handles c hc
  · rw [hregistry]
    exact h.nonzero
  · rw [hregistry, hfrees]
    exact h.distinct
  · rw [hdispatched]
    exact h.own
  · intro q x hx
    rw [hdropped] at hx
    rw [hhandle]
    exact h.reported q x hx
  · intro q hq
    rw [hdropped] at hq
    exact hrelease q (h.dropped q hq)

/-- A step that does to one service what an operation does. -/
theorem Inv.sound_update (h : Inv w t) (c : ℕ) {v : Service} (hv : v.Sound)
    (heq : w'.service t' = Function.update (w.service t) c v) (d : ℕ) :
  (w'.service t' d).Sound
  := by
  rw [heq]
  rcases eq_or_ne d c with rfl | hne
  · rw [Function.update_self]
    exact hv
  · rw [Function.update_of_ne hne]
    exact h.sound d

/-! ### Queues -/

theorem Node.assert_of_true {b : Bool} (hb : b = true) :
  w.assert b = w
  := by simp [Node.assert, hb]

theorem Node.touch_of_there (hq : w.frees q = 0) :
  w.touch q = w
  := by simp [Node.touch, hq]

theorem Inv.frees_of_global (h : Inv w t) (hq : q ∈ w.global) :
  w.frees q = 0
  := by
  have hpos : 0 < w.global.count q := List.count_pos_iff.mpr hq
  exact ((h.sound q).frees_of_holds (Nat.add_pos_left hpos _)).1

/-- A queue that a thread owns is there, and not in the global queue. -/
theorem Inv.held (h : Inv w t) (hq : .hold q ∈ t) :
  w.frees q = 0 ∧ q ∉ w.global ∧ (w.registry.life q).created = true
  := by
  have hpos : 0 < (w.service t q).holds := Multiset.count_pos.mpr hq
  obtain ⟨hfrees, hone, hcreated⟩ := (h.sound q).frees_of_holds (Nat.add_pos_right _ hpos)
  refine ⟨hfrees, List.count_eq_zero.mp ?_, hcreated⟩
  dsimp only [Node.service] at hone hpos
  omega

/-- The queue of a context that a thread has a reference to is there, and not released. -/
theorem Inv.used (h : Inv w t) (hc : .ref c ∈ t) :
  w.frees c = 0 ∧ (w.queue c).release = false
  := by
  have hpos : 0 < (w.service t c).refs := Multiset.count_pos.mpr hc
  obtain ⟨hrelease, hfrees, -⟩ := (h.sound c).release_of_refs hpos
  exact ⟨hfrees, hrelease⟩

theorem contains_dropLast {l : List ℕ} (hnot : q ∉ l) :
  l.dropLast.contains q = false
  := by
  rw [List.contains_eq_mem, decide_eq_false_iff_not]
  exact fun hmem => hnot (List.mem_of_mem_dropLast hmem)

/-- A queue that is not in the global queue is put there, and nothing else happens. -/
theorem Node.globalmqPush_eq (hq : w.frees q = 0) (hglobal : ∀ q ∈ w.global, w.frees q = 0)
    (hnot : q ∉ w.global) :
  w.globalmqPush q = { w with global := w.global ++ [q] }
  := by
  unfold Node.globalmqPush
  rw [Node.touch_of_there hq, Node.assert_of_true (by rw [contains_dropLast hnot]; rfl)]
  dsimp only
  split
  · next tail htail =>
      rw [Node.touch_of_there (hglobal tail (List.mem_of_getLast? htail))]
  · rfl

theorem Inv.not_mem_global (h : Inv w t) (hglobal : (w.queue q).inGlobal = false)
    (hrelease : (w.queue q).release = false) :
  q ∉ w.global
  := List.count_eq_zero.mp ((h.sound q).idle hglobal hrelease).1

/-- A thread puts the queue that it owns in the global queue. -/
theorem Inv.globalmqPush (h : Inv w (.hold q ::ₘ t)) :
  Inv (w.globalmqPush q) t
  := by
  have hmem : .hold q ∈ (.hold q ::ₘ t) := Multiset.mem_cons_self _ _
  have hpos : 0 < (w.service (.hold q ::ₘ t) q).holds := Multiset.count_pos.mpr hmem
  obtain ⟨hfrees, hnot, -⟩ := h.held hmem
  rw [Node.globalmqPush_eq hfrees (fun q hq => h.frees_of_global hq) hnot]
  refine h.kept rfl h.running h.untouched rfl rfl rfl (fun _ => rfl) (fun _ => id) ?_
  apply h.sound_update q ((h.sound q).enlist hpos)
  funext d
  rcases eq_or_ne d q with rfl | hne
  · simp [Node.service, Service.enlist, Token.messages]
  · simp [Node.service, Token.messages, hne, hne.symm, List.count_append]

/-- A thread takes the first queue out of the global queue, if there is one. -/
theorem Inv.globalmqPop (h : Inv w t) :
  w.globalmqPop = (none, w) ∨
  ∃ q global, w.globalmqPop = (some q, { w with global := global }) ∧
    Inv { w with global := global } (.hold q ::ₘ t)
  := by
  unfold Node.globalmqPop
  split
  · exact .inl rfl
  · next q global hglobal =>
      have hmem : q ∈ w.global := hglobal ▸ List.mem_cons_self
      refine .inr ⟨q, global, ?_, ?_⟩
      · rw [Node.touch_of_there (h.frees_of_global hmem)]
      · refine h.kept rfl h.running h.untouched rfl rfl rfl (fun _ => rfl) (fun _ => id) ?_
        have hpos : 0 < (w.service t q).inList := List.count_pos_iff.mpr hmem
        apply h.sound_update q ((h.sound q).delist hpos)
        funext d
        rcases eq_or_ne d q with rfl | hne
        · simp [Node.service, Service.delist, Token.messages, hglobal]
        · simp [Node.service, Token.messages, hglobal, hne, hne.symm]

/-- What holds of a queue that is changed, as of one that is not, holds of all. -/
theorem Node.forall_update {P : MessageQueue → MessageQueue → Prop} (hrefl : ∀ x, P x x) {queue : MessageQueue}
    (hq : P (w.queue q) queue) (d : ℕ) :
  P (w.queue d) (Function.update w.queue q queue d)
  := by
  rcases eq_or_ne d q with rfl | hne
  · rw [Function.update_self]
    exact hq
  · rw [Function.update_of_ne hne]
    exact hrefl _

/-- A step that changes one queue. -/
theorem Inv.kept_queue (h : Inv w t) (hregistry : w'.registry = w.registry) (hrunning : w'.aborted = false)
    (huntouched : w'.dangling = false) (hfrees : w'.frees = w.frees) (hdispatched : w'.dispatched = w.dispatched)
    (hdropped : w'.dropped = w.dropped) {queue : MessageQueue}
    (hqueue : w'.queue = Function.update w.queue q queue) (hhandle : queue.handle = (w.queue q).handle)
    (hrelease : (w.queue q).release = true → queue.release = true) {v : Service} (hv : v.Sound)
    (heq : w'.service t' = Function.update (w.service t) q v) :
  Inv w' t'
  := by
  refine h.kept hregistry hrunning huntouched hfrees hdispatched hdropped ?_ ?_ (h.sound_update q hv heq)
  · rw [hqueue]
    exact Node.forall_update (P := fun x y => y.handle = x.handle) (fun _ => rfl) hhandle
  · rw [hqueue]
    exact Node.forall_update (P := fun x y => x.release = true → y.release = true) (fun _ => id) hrelease

/-- A thread pushes a message to the queue of a context that it has a reference to. -/
theorem Inv.mqPush (h : Inv w (.ref c ::ₘ t)) (hcreated : (w.registry.life c).created = true)
    (message : Message) :
  Inv (w.mqPush c message) (.ref c ::ₘ t)
  := by
  have hmem : .ref c ∈ (.ref c ::ₘ t) := Multiset.mem_cons_self _ _
  have hpos : 0 < (w.service (.ref c ::ₘ t) c).refs := Multiset.count_pos.mpr hmem
  obtain ⟨hfrees, hrelease⟩ := h.used hmem
  have hpush := (h.sound c).push message hpos hcreated
  unfold Node.mqPush
  rw [Node.touch_of_there hfrees]
  cases hglobal : (w.queue c).inGlobal with
  | true =>
      refine h.kept_queue rfl h.running h.untouched rfl rfl rfl rfl rfl id hpush ?_
      funext d
      rcases eq_or_ne d c with rfl | hne
      · simp [Node.service, Service.push, hglobal]
      · simp [Node.service, hne]
  | false =>
      have hnot := h.not_mem_global hglobal hrelease
      rw [if_neg Bool.false_ne_true, Node.globalmqPush_eq (by exact hfrees)
        (by exact fun q hq => h.frees_of_global hq) (by exact hnot)]
      refine h.kept_queue rfl h.running h.untouched rfl rfl rfl rfl rfl id hpush ?_
      funext d
      rcases eq_or_ne d c with rfl | hne
      · simp [Node.service, Service.push, hglobal]
      · simp [Node.service, hne, hne.symm]

/-- A thread marks the queue of a context that is deleted. -/
theorem Inv.mqMarkRelease (h : Inv w (.mark q ::ₘ t)) :
  Inv (w.mqMarkRelease q) t
  := by
  have hpos : 0 < (w.service (.mark q ::ₘ t) q).marks := by simp [Node.service]
  obtain ⟨hrelease, hfrees, -⟩ := (h.sound q).release_of_marks hpos
  have hmark := (h.sound q).mark hpos
  dsimp only [Node.service] at hrelease hfrees
  unfold Node.mqMarkRelease
  rw [Node.touch_of_there hfrees, Node.assert_of_true (by rw [hrelease]; rfl)]
  cases hglobal : (w.queue q).inGlobal with
  | true =>
      refine h.kept_queue rfl h.running h.untouched rfl rfl rfl rfl rfl (fun _ => rfl) hmark ?_
      funext d
      rcases eq_or_ne d q with rfl | hne
      · simp [Node.service, Service.mark, hglobal, MessageQueue.messages, Token.messages]
      · simp [Node.service, hne, Token.messages]
  | false =>
      have hnot := h.not_mem_global hglobal hrelease
      rw [if_neg Bool.false_ne_true, Node.globalmqPush_eq (by exact hfrees)
        (by exact fun q hq => h.frees_of_global hq) (by exact hnot)]
      refine h.kept_queue rfl h.running h.untouched rfl rfl rfl rfl rfl (fun _ => rfl) hmark ?_
      funext d
      rcases eq_or_ne d q with rfl | hne
      · simp [Node.service, Service.mark, hglobal, MessageQueue.messages, Token.messages]
      · simp [Node.service, hne, hne.symm, Token.messages]

/-- A thread takes a message out of the queue that it owns, or finds it empty. -/
theorem Inv.mqPop (h : Inv w (.hold q ::ₘ t)) (hhands : owned (Token.messages q) t = 0) :
  (w.queue q).messages = [] ∧
    w.mqPop q = (none, { w with queue := Function.update w.queue q { w.queue q with inGlobal := false } }) ∨
  ∃ message queue, w.mqPop q = (some message, { w with queue := Function.update w.queue q queue }) ∧
    queue.release = (w.queue q).release ∧ queue.inGlobal = (w.queue q).inGlobal ∧
    Inv { w with queue := Function.update w.queue q queue } (.hand q message ::ₘ .hold q ::ₘ t)
  := by
  obtain ⟨hfrees, -⟩ := h.held (Multiset.mem_cons_self _ _)
  unfold Node.mqPop
  rw [Node.touch_of_there hfrees]
  obtain ⟨hmessages, hpop⟩ | ⟨message, queue, hmessages, hpop⟩ := (w.queue q).pop_cases
  · refine .inl ⟨hmessages, ?_⟩
    rw [hpop]
  · refine .inr ⟨message, { w.queue q with queue := queue }, ?_, rfl, rfl, ?_⟩
    · rw [hpop]
    · have hempty : (w.service (.hold q ::ₘ t) q).hands = 0 := by simp [Node.service, Token.messages, hhands]
      have hhead : (w.service (.hold q ::ₘ t) q).messages.head? = some message := by
        simp [Node.service, hmessages]
      have hsound := (h.sound q).pop hempty hhead hfrees
      refine h.kept_queue rfl h.running h.untouched rfl rfl rfl rfl rfl id hsound ?_
      funext d
      rcases eq_or_ne d q with rfl | hne
      · simp [Node.service, Service.pop, hmessages, Token.messages]
      · simp [Node.service, hne, hne.symm, Token.messages]

/-- A worker leaves a queue that it has found empty. -/
theorem Inv.leave (h : Inv w (.hold q ::ₘ .ref q ::ₘ t)) (hmessages : (w.queue q).messages = []) :
  Inv { w with queue := Function.update w.queue q { w.queue q with inGlobal := false } } (.ref q ::ₘ t)
  := by
  have hhold : 0 < (w.service (.hold q ::ₘ .ref q ::ₘ t) q).holds := by simp [Node.service]
  have href : 0 < (w.service (.hold q ::ₘ .ref q ::ₘ t) q).refs := by simp [Node.service]
  have hleave := (h.sound q).leave hmessages hhold href
  refine h.kept_queue rfl h.running h.untouched rfl rfl rfl rfl rfl id hleave ?_
  funext d
  rcases eq_or_ne d q with rfl | hne
  · simp [Node.service, Service.leave, MessageQueue.messages, Token.messages]
  · simp [Node.service, hne, Token.messages]

/-- A thread that drops a queue has found it empty. -/
theorem Inv.drain (h : Inv w t) (hmessages : (w.queue q).messages = []) (hrelease : (w.queue q).release = true) :
  Inv { w with queue := Function.update w.queue q { w.queue q with inGlobal := false } } t
  := by
  have hdrain := (h.sound q).drain hmessages hrelease
  refine h.kept_queue rfl h.running h.untouched rfl rfl rfl rfl rfl id hdrain ?_
  funext d
  rcases eq_or_ne d q with rfl | hne
  · simp [Node.service, Service.drain, MessageQueue.messages]
  · simp [Node.service, hne]

/-- A thread frees the queue that it owns. -/
theorem Inv.release (h : Inv w (.hold q ::ₘ t)) (hrelease : (w.queue q).release = true)
    (hglobal : (w.queue q).inGlobal = false) (hhands : owned (Token.messages q) t = 0) :
  Inv (w.release q) t
  := by
  have hmem : .hold q ∈ (.hold q ::ₘ t) := Multiset.mem_cons_self _ _
  have hpos : 0 < (w.service (.hold q ::ₘ t) q).holds := Multiset.count_pos.mpr hmem
  obtain ⟨hfrees, hnot, -⟩ := h.held hmem
  have hempty : (w.service (.hold q ::ₘ t) q).hands = 0 := by simp [Node.service, Token.messages, hhands]
  have hfree := (h.sound q).free hpos hrelease ((h.sound q).empty hglobal) hempty
  unfold Node.release
  rw [Node.touch_of_there hfrees, Node.assert_of_true (by rw [contains_dropLast hnot]; rfl)]
  have hsame : ∀ d, Function.update w.frees q (w.frees q + 1) d = 0 → w.frees d = 0 := by
    intro d hd
    rcases eq_or_ne d q with rfl | hne
    · exact hfrees
    · rwa [Function.update_of_ne hne] at hd
  refine ⟨h.good, h.running, h.untouched, ?_, h.handles, h.nonzero, ?_, h.own, h.reported, h.dropped⟩
  · apply h.sound_update q hfree
    funext d
    rcases eq_or_ne d q with rfl | hne
    · simp [Node.service, Service.free, Token.messages]
    · simp [Node.service, hne, Token.messages]
  · intro c d handle hc hd hfreec hfreed
    exact h.distinct c d handle hc hd (hsame c hfreec) (hsame d hfreed)

/-! ### Contexts -/

/-- A thread gives up a reference. -/
theorem Inv.contextRelease (h : Inv w (.ref c ::ₘ t)) :
  Inv (w.contextRelease c).1 (((w.contextRelease c).2.map Instr.tokens).sum + t)
  := by
  have hpos : 0 < (w.service (.ref c ::ₘ t) c).refs := by simp [Node.service]
  have hunref := (h.sound c).unref hpos
  unfold Node.contextRelease
  refine h.kept rfl h.running h.untouched rfl rfl rfl (fun _ => rfl) (fun _ => id) ?_
  apply h.sound_update c hunref
  funext d
  split
  · next hzero =>
      rcases eq_or_ne d c with rfl | hne
      · simp [Node.service, Service.unref, Instr.tokens, Token.messages, hzero]
      · simp [Node.service, hne, Instr.tokens, Token.messages]
  · next hzero =>
      rcases eq_or_ne d c with rfl | hne
      · simp [Node.service, Service.unref, Token.messages, hzero]
      · simp [Node.service, hne, Token.messages]

theorem Inv.life_of_find (h : Inv w t) {handle : ℕ} (hne : handle ≠ 0)
    (hfind : w.registry.find handle = some c) :
  w.registry.life c = .live handle
  := h.good.life_of_find (fun hzero => absurd hzero hne) hfind

/-- A thread looks up a handle, and has a reference to the context that it finds. -/
theorem Inv.handleGrab (h : Inv w t) {handle : ℕ} (hne : handle ≠ 0) :
  w.handleGrab handle = (none, w) ∨
  ∃ c, w.handleGrab handle = (some c, { w with ref := Function.update w.ref c (w.ref c + 1) }) ∧
    w.registry.life c = .live handle ∧
    Inv { w with ref := Function.update w.ref c (w.ref c + 1) } (.ref c ::ₘ t)
  := by
  unfold Node.handleGrab
  split
  · exact .inl rfl
  · next c hfind =>
      have hlife := h.life_of_find hne hfind
      refine .inr ⟨c, rfl, hlife, ?_⟩
      refine h.kept rfl h.running h.untouched rfl rfl rfl (fun _ => rfl) (fun _ => id) ?_
      have hgrab := (h.sound c).grab hlife
      apply h.sound_update c hgrab
      funext d
      rcases eq_or_ne d c with rfl | hd
      · simp [Node.service, Service.grab, Token.messages]
      · simp [Node.service, hd, Token.messages]

/-- What is retired is what has the handle. -/
theorem Inv.retire_life (h : Inv w t) {handle : ℕ} (hne : handle ≠ 0) (d : ℕ) :
  (w.registry.retire handle).life d =
    if w.registry.find handle = some d then .retired handle else w.registry.life d
  := by
  rw [Registry.retire_life]
  congr 1
  apply propext
  constructor
  · exact h.good.consistent.findable d handle
  · exact h.life_of_find hne

theorem given_retire (r : Registry) (handle d : ℕ) :
  ((r.retire handle).life d).given = (r.life d).given
  := by
  rw [Registry.retire_life]
  split
  · next hlife =>
      rw [hlife]
      rfl
  · rfl

theorem created_retire (r : Registry) (handle d : ℕ) :
  ((r.retire handle).life d).created = (r.life d).created
  := by
  rw [Registry.retire_life]
  split
  · next hlife =>
      rw [hlife]
      rfl
  · rfl

/-- A thread retires a handle, and has the reference of the table to the context that had it. -/
theorem Inv.handleRetire (h : Inv w t) {handle : ℕ} (hne : handle ≠ 0) :
  Inv (w.handleRetire handle).1 (((w.handleRetire handle).2.map Instr.tokens).sum + t)
  := by
  have hok : w.registry.Harmless (.retire handle) := fun hzero => absurd hzero hne
  have hgood := h.good.retire hok
  refine ⟨hgood, h.running, h.untouched, ?_, ?_, ?_, ?_, h.own, h.reported, h.dropped⟩
  · unfold Node.handleRetire
    cases hfind : w.registry.find handle with
    | none =>
        intro d
        have hsame : Node.service { w with registry := w.registry.retire handle } (([].map Instr.tokens).sum + t) d =
            w.service t d := by
          simp [Node.service, h.retire_life hne, hfind]
        rw [hsame]
        exact h.sound d
    | some c =>
        have hretire := (h.sound c).retire (h.life_of_find hne hfind)
        apply h.sound_update c hretire
        funext d
        rcases eq_or_ne d c with rfl | hd
        · simp [Node.service, Service.retire, Instr.tokens, Token.messages, h.retire_life hne, hfind]
        · simp [Node.service, hd, hd.symm, Instr.tokens, Token.messages, h.retire_life hne, hfind]
  · intro c hc
    unfold Node.handleRetire at hc ⊢
    dsimp only at hc ⊢
    rw [created_retire] at hc
    rw [given_retire]
    exact h.handles c hc
  · intro c handle' hc
    unfold Node.handleRetire at hc
    dsimp only at hc
    rw [given_retire] at hc
    exact h.nonzero c handle' hc
  · intro c d handle' hc hd
    unfold Node.handleRetire at hc hd
    dsimp only at hc hd
    rw [given_retire] at hc hd
    exact h.distinct c d handle' hc hd

/-! ### The creation of a service -/

/-- What a registration does, unless it fails. -/
theorem register_cases {r r' : Registry} (h : r.register c = some r') (hasserted : r'.aborted = false) :
  ∃ handle storage, r' =
    { r with
      storage := storage
      handle := Function.update r.handle c 0
      life := Function.update r.life c (.registered handle) }
  := by
  unfold Registry.register at h
  dsimp only at h
  split at h
  · next handle storage _ => exact ⟨handle, storage, (Option.some.inj h).symm⟩
  · obtain rfl := Option.some.inj h
    cases hasserted
  · cases h

/-- A step is harmless: a context that is registered is not lost, and what it is given is no handle that a context
has been given whose queue is not freed, and not 0. -/
def Harmless (w : Node) : Instr → Prop
  | .contextNew ctx => w.registry.Harmless (.register ctx) ∧
      ∀ registry handle, w.registry.register ctx = some registry → registry.life ctx = .registered handle →
        handle ≠ 0 ∧ ∀ d, d ≠ ctx → (w.registry.life d).given = some handle → w.frees d ≠ 0
  | _ => True

/-- A thread registers a context. -/
theorem Inv.contextNew (h : Inv w t) (hunborn : w.registry.life c = .unborn) (hok : Harmless w (.contextNew c))
    {registry : Registry} (hregister : w.registry.register c = some registry) :
  Inv { w with registry := registry, ref := Function.update w.ref c 2, init := Function.update w.init c false }
    (.ref c ::ₘ .creating c ::ₘ t)
  := by
  obtain ⟨hharmless, hfresh⟩ := hok
  have hgood := h.good.register hunborn hharmless hregister
  obtain ⟨handle, storage, rfl⟩ := register_cases hregister hgood.asserted
  obtain ⟨hnonzero, hunused⟩ := hfresh _ handle hregister (Function.update_self _ _ _)
  have hregistered := (h.sound c).register handle hunborn
  have hother : ∀ d handle', d ≠ c → (Function.update w.registry.life c (.registered handle) d).given = some handle' →
      (w.registry.life d).given = some handle' := by
    intro d handle' hne hd
    rwa [Function.update_of_ne hne] at hd
  have hself : ∀ handle', (Function.update w.registry.life c (.registered handle) c).given = some handle' →
      handle' = handle := by
    intro handle' hc
    rw [Function.update_self] at hc
    exact (Option.some.inj hc).symm
  refine ⟨hgood, h.running, h.untouched, ?_, ?_, ?_, ?_, h.own, h.reported, h.dropped⟩
  · apply h.sound_update c hregistered
    funext d
    rcases eq_or_ne d c with rfl | hne
    · simp [Node.service, Service.register, Token.messages]
    · simp [Node.service, hne, Token.messages]
  · intro d hd
    dsimp only at hd ⊢
    rcases eq_or_ne d c with rfl | hne
    · rw [Function.update_self] at hd
      cases hd
    · rw [Function.update_of_ne hne] at hd ⊢
      rw [Function.update_of_ne hne]
      exact h.handles d hd
  · intro d handle' hd
    dsimp only at hd
    rcases eq_or_ne d c with rfl | hne
    · rw [hself handle' hd]
      exact hnonzero
    · exact h.nonzero d handle' (hother d handle' hne hd)
  · intro d e handle' hd he hfreed hfreee
    dsimp only at hd he hfreed hfreee
    rcases eq_or_ne d c with rfl | hdc
    · obtain rfl := hself handle' hd
      by_contra hne
      exact hunused e (Ne.symm hne) (hother e _ (Ne.symm hne) he) hfreee
    · rcases eq_or_ne e c with rfl | hec
      · obtain rfl := hself handle' he
        exact absurd hfreed (hunused d hdc (hother d _ hdc hd))
      · exact h.distinct d e handle' (hother d _ hdc hd) (hother e _ hec he) hfreed hfreee

theorem Inv.dropped_of_release (h : Inv w t) (hrelease : (w.queue q).release = false) :
  w.dropped q = []
  := by
  by_contra hne
  have htrue := h.dropped q hne
  rw [hrelease] at htrue
  cases htrue

/-- The thread that creates a service stores the handle, and creates the queue. -/
theorem Inv.mqCreate (h : Inv w (.ref c ::ₘ .creating c ::ₘ t)) {handle : ℕ}
    (hlife : w.registry.life c = .registered handle) :
  Inv { w with
      registry := w.registry.assign c handle
      queue := Function.update w.queue c (.create handle) }
    (.ref c ::ₘ .hold c ::ₘ .young c ::ₘ t)
  := by
  have hcreate := (h.sound c).create hlife
  have hdropped := h.dropped_of_release (h.used (Multiset.mem_cons_self _ _)).2
  have hgiven : ∀ d, ((w.registry.assign c handle).life d).given = (w.registry.life d).given := by
    intro d
    dsimp only [Registry.assign]
    rcases eq_or_ne d c with rfl | hne
    · rw [Function.update_self, hlife]
      rfl
    · rw [Function.update_of_ne hne]
  refine ⟨h.good.assign hlife, h.running, h.untouched, ?_, ?_, ?_, ?_, h.own, ?_, ?_⟩
  · apply h.sound_update c hcreate
    funext d
    rcases eq_or_ne d c with rfl | hne
    · simp [Node.service, Service.create, Registry.assign, MessageQueue.create, MessageQueue.messages, Token.messages]
    · simp [Node.service, hne, Registry.assign, Token.messages]
  · intro d hd
    dsimp only at hd ⊢
    rw [hgiven]
    dsimp only [Registry.assign] at hd ⊢
    rcases eq_or_ne d c with rfl | hne
    · rw [Function.update_self, Function.update_self, hlife]
      exact ⟨rfl, rfl⟩
    · rw [Function.update_of_ne hne] at hd ⊢
      rw [Function.update_of_ne hne]
      exact h.handles d hd
  · intro d handle' hd
    dsimp only at hd
    rw [hgiven] at hd
    exact h.nonzero d handle' hd
  · intro d e handle' hd he
    dsimp only at hd he
    rw [hgiven] at hd he
    exact h.distinct d e handle' hd he
  · intro d x hx
    dsimp only at hx ⊢
    rcases eq_or_ne d c with rfl | hne
    · rw [hdropped] at hx
      cases hx
    · rw [Function.update_of_ne hne]
      exact h.reported d x hx
  · intro d hd
    dsimp only at hd ⊢
    rcases eq_or_ne d c with rfl | hne
    · exact absurd hdropped hd
    · rw [Function.update_of_ne hne]
      exact h.dropped d hd

/-- The creation of a service ends. -/
theorem Inv.settle (h : Inv w (.young c ::ₘ t)) (init : Bool)
    (hinit : (w.registry.life c).listed = true → init = true) :
  Inv { w with init := Function.update w.init c init } t
  := by
  have hsettle := (h.sound c).settle init hinit
  refine h.kept rfl h.running h.untouched rfl rfl rfl (fun _ => rfl) (fun _ => id) ?_
  apply h.sound_update c hsettle
  funext d
  rcases eq_or_ne d c with rfl | hne
  · simp [Node.service, Service.settle, Token.messages]
  · simp [Node.service, hne, Token.messages]

/-! ### Messages in the hands of a thread -/

/-- A worker hands a message to the context of the queue. -/
theorem Inv.dispatch {message : Message} (h : Inv w (.hand q message ::ₘ .hold q ::ₘ .ref q ::ₘ t))
    (hhands : owned (Token.messages q) t = 0) :
  Inv { w with dispatched := Function.update w.dispatched q (w.dispatched q ++ [(q, message)]) }
    (.hold q ::ₘ .ref q ::ₘ t)
  := by
  have hdropped := h.dropped_of_release (h.used (c := q) (by simp)).2
  have hhand : (w.service (.hand q message ::ₘ .hold q ::ₘ .ref q ::ₘ t) q).hands = {message} := by
    simp [Node.service, Token.messages, hhands]
  have htake := (h.sound q).take hhand
  refine ⟨h.good, h.running, h.untouched, ?_, h.handles, h.nonzero, h.distinct, ?_, h.reported, h.dropped⟩
  · apply h.sound_update q htake
    funext d
    rcases eq_or_ne d q with rfl | hne
    · simp [Node.service, Service.take, Token.messages, hhands, hdropped]
    · simp [Node.service, hne, hne.symm, Token.messages]
  · intro d x hx
    dsimp only at hx
    rcases eq_or_ne d q with rfl | hne
    · rw [Function.update_self] at hx
      rcases List.mem_append.mp hx with hx | hx
      · exact h.own d x hx
      · rw [List.mem_singleton.mp hx]
    · rw [Function.update_of_ne hne] at hx
      exact h.own d x hx

/-- A message is dropped, with the report that is sent. -/
theorem Inv.drop {message : Message} (h : Inv w (.hand q message ::ₘ t)) (hhands : owned (Token.messages q) t = 0)
    (hrelease : (w.queue q).release = true) :
  Inv
    { w with
      dropped := Function.update w.dropped q
        (w.dropped q ++ [(message, Node.errorTo (w.queue q).handle message)]) }
    t
  := by
  have hhand : (w.service (.hand q message ::ₘ t) q).hands = {message} := by
    simp [Node.service, Token.messages, hhands]
  have htake := (h.sound q).take hhand
  refine ⟨h.good, h.running, h.untouched, ?_, h.handles, h.nonzero, h.distinct, h.own, ?_, ?_⟩
  · apply h.sound_update q htake
    funext d
    rcases eq_or_ne d q with rfl | hne
    · simp [Node.service, Service.take, Token.messages, hhands]
    · simp [Node.service, hne, hne.symm, Token.messages]
  · intro d x hx
    dsimp only at hx ⊢
    rcases eq_or_ne d q with rfl | hne
    · rw [Function.update_self] at hx
      rcases List.mem_append.mp hx with hx | hx
      · exact h.reported d x hx
      · rw [List.mem_singleton.mp hx]
    · rw [Function.update_of_ne hne] at hx
      exact h.reported d x hx
  · intro d hd
    dsimp only at hd ⊢
    rcases eq_or_ne d q with rfl | hne
    · exact hrelease
    · rw [Function.update_of_ne hne] at hd
      exact h.dropped d hd

end Inv

end Scheduler

end Skynet
