import FWServer.Skynet.SchedulerSteps

/-!
# Runs of the scheduler

What holds in all states of runs whose steps are harmless: no queue is in two places, none is forgotten while it
has messages, the messages of a queue are dispatched or dropped in their order, and a queue is freed once.
-/

namespace Skynet

namespace Scheduler

open Programs

/-! ### Services and threads -/

/-- The instructions by which `ctx` is created. -/
def Instr.creates (ctx : ℕ) : Instr → Bool
  | .mqCreate ctx' => ctx' = ctx
  | .instanceInit ctx' => ctx' = ctx
  | .launched ctx' => ctx' = ctx
  | .launchPush ctx' => ctx' = ctx
  | .failRelease ctx' => ctx' = ctx
  | .failRetire ctx' _ => ctx' = ctx
  | .failDrop ctx' => ctx' = ctx
  | _ => false

/-- The instructions of a worker that has the queue `q`. -/
def Instr.works (q : ℕ) : Instr → Bool
  | .handleGrab _ q' => q = q'
  | .mqRelease q' => q = q'
  | .mqPop _ q' _ _ _ => q = q'
  | .mqLength _ q' _ _ => q = q'
  | .dispatchMessage _ q' _ _ _ _ => q = q'
  | .nextQueue _ q' _ => q = q'
  | .pushBack _ q' _ nq => q = q' ∨ q = nq
  | _ => false

/-- What the threads own. -/
def tokens (s : State Node Instr) : Multiset Token :=
  owned Instr.tokens s.todo

/-- The messages of `q` that threads have taken out of the queue, and neither dispatched nor dropped yet. -/
def hands (s : State Node Instr) (q : ℕ) : Multiset Message :=
  owned (Token.messages q) (tokens s)

/-- The queues are dealt with as they should be. -/
structure Scheduled (s : State Node Instr) : Prop where
  /-- No assertion fails. -/
  running : s.shared.aborted = false
  /-- No queue is touched after it has been freed. -/
  untouched : s.shared.dangling = false
  /-- A queue is in the global queue or held by a thread, once in all. -/
  once : ∀ q, s.shared.global.count q + (tokens s).count (.hold q) ≤ 1
  /-- A queue that is not empty is in the global queue or held. -/
  held : ∀ q, (s.shared.queue q).messages ≠ [] → q ∈ s.shared.global ∨ .hold q ∈ tokens s
  /-- A live service whose creation is over has been initialised, and its queue is in the global queue or held by a
  worker unless it is empty. -/
  awake : ∀ c handle, s.shared.registry.life c = .live handle → (∀ i ∈ s.todo, i.creates c = false) →
    s.shared.init c = true ∧ ((s.shared.queue c).messages ≠ [] →
      c ∈ s.shared.global ∨ ∃ i ∈ s.todo, i.works c = true)
  /-- The messages accepted are dispatched or dropped in their order, except for one that is in the hands of a
  thread and those that are still in the queue. -/
  order : ∀ q, ∃ hand : List Message, ↑hand = hands s q ∧ hand.length ≤ 1 ∧
    s.shared.accepted q = (s.shared.dispatched q).map Prod.snd ++ (s.shared.dropped q).map Prod.fst ++ hand ++
      (s.shared.queue q).messages
  /-- Messages are dispatched to the context of the queue. -/
  own : ∀ q, ∀ x ∈ s.shared.dispatched q, x.1 = q
  /-- Messages are dropped when the service has been retired, and reported to their sources. -/
  reported : ∀ q, ∀ x ∈ s.shared.dropped q, ∃ handle, s.shared.registry.life q = .retired handle ∧
    x.2 = ⟨handle, x.1.source, PTYPE_ERROR, 0, []⟩
  /-- A queue is freed at most once, when the service has been retired and all messages have been dispatched or
  dropped. -/
  freed : ∀ q, s.shared.frees q ≠ 0 → s.shared.frees q = 1 ∧
    s.shared.accepted q = (s.shared.dispatched q).map Prod.snd ++ (s.shared.dropped q).map Prod.fst ∧
    ∃ handle, s.shared.registry.life q = .retired handle
  /-- The queue of a retired service is freed, unless threads still use the service or the queue is on its way to
  be freed. -/
  doomed : ∀ q handle, s.shared.registry.life q = .retired handle → s.shared.frees q = 0 →
    .ref q ∈ tokens s ∨ .mark q ∈ tokens s ∨
      (s.shared.queue q).release = true ∧ (q ∈ s.shared.global ∨ .hold q ∈ tokens s)

section Inv

variable {s : State Node Instr} {q c : ℕ}

/-- What holds in all states that are reached. -/
structure Ordered (w : Node) (todo : Multiset Instr) : Prop where
  inv : Inv w (owned Instr.tokens todo)
  fits : ∀ i ∈ todo, Fits w i

/-- A step keeps it. -/
theorem Ordered.execute {w w' : Node} {ok : Bool} {i : Instr} {js : List Instr} {todo : Multiset Instr}
    (h : Ordered w (i ::ₘ todo)) (hok : Harmless w i) (hexecute : w.execute ok i = some (w', js)) :
  Ordered w' (↑js + todo)
  := by
  have hleads := leads_execute h.inv (h.fits i (Multiset.mem_cons_self i todo)) hok hexecute
  constructor
  · rw [owned_coe_add]
    exact hleads.inv
  · intro j hj
    rcases Multiset.mem_add.mp hj with hj | hj
    · exact hleads.fits j (Multiset.mem_coe.mp hj)
    · exact (h.fits j (Multiset.mem_cons_of_mem hj)).later hleads.later

/-- A thread that is started owns nothing. -/
theorem Ordered.start {w : Node} {i : Instr} {todo : Multiset Instr} (h : Ordered w todo)
    (hstarts : i.starts = true) :
  Ordered w (i ::ₘ todo)
  := by
  constructor
  · have htokens : i.tokens = 0 := by
      cases i <;> first | rfl | cases hstarts
    rw [owned_cons, htokens, zero_add]
    exact h.inv
  · intro j hj
    rcases Multiset.mem_cons.mp hj with rfl | hj
    · cases j <;> simp_all [Instr.starts, Fits]
    · exact h.fits j hj

theorem service_start (harbor c : ℕ) :
  ((Node.start harbor).service 0 c).Sound
  := by
  constructor
  case order => exact ⟨[], rfl, rfl⟩
  all_goals simp [Node.service, Node.start, Registry.start, MessageQueue.create, MessageQueue.messages, Life.awaited,
    Life.listed, Life.created]

theorem ordered_start (harbor : ℕ) :
  Ordered (.start harbor) 0
  := by
  constructor
  · constructor
    case good => exact Registry.good_start harbor
    case sound => exact service_start harbor
    all_goals simp [Node.start, Registry.start, Life.created, Life.given]
  · exact fun i hi => absurd hi (Multiset.notMem_zero i)

/-! ### Services whose creation is over -/

/-- The creation of a service is over when no thread is to end it. -/
theorem count_young (hover : ∀ i ∈ s.todo, i.creates c = false) :
  (tokens s).count (.young c) = 0
  := by
  apply Multiset.count_eq_zero.mpr
  intro hx
  obtain ⟨i, hi, hx⟩ := mem_owned.mp hx
  have hcreates := hover i hi
  cases i <;> simp_all [Instr.tokens, Instr.creates]

/-- Who holds the queue of a service whose creation is over is a worker, unless the queue is released. -/
theorem works_of_hold (h : Ordered s.shared s.todo) (hover : ∀ i ∈ s.todo, i.creates c = false)
    (hrelease : (s.shared.queue c).release = false) (hx : .hold c ∈ tokens s) :
  ∃ i ∈ s.todo, i.works c = true
  := by
  obtain ⟨i, hi, hx⟩ := mem_owned.mp hx
  have hcreates := hover i hi
  have hfits := h.fits i hi
  use i, hi
  cases i <;> simp_all [Instr.tokens, Instr.creates, Instr.works, Fits]

theorem Instr.card_messages (i : Instr) (q : ℕ) :
  (owned (Token.messages q) i.tokens).card ≤ 1
  := by
  cases i with
  | report q' message =>
      by_cases hq : q' = q <;> simp [Instr.tokens, Token.messages, hq]
  | mqLength weight q' c message =>
      by_cases hq : q' = q <;> simp [Instr.tokens, Token.messages, hq]
  | dispatchMessage weight q' c message i n =>
      by_cases hq : q' = q <;> simp [Instr.tokens, Token.messages, hq]
  | _ => simp [Instr.tokens, Token.messages]

/-- One message of a queue at most is in the hands of threads. -/
theorem card_hands (h : Ordered s.shared s.todo) (q : ℕ) :
  (hands s q).card ≤ 1
  := by
  by_cases hx : ∃ message, .hand q message ∈ tokens s
  · obtain ⟨message, hx⟩ := hx
    obtain ⟨i, hi, hx⟩ := mem_owned.mp hx
    obtain ⟨rest, hrest⟩ := Multiset.exists_cons_of_mem hi
    have hinv := h.inv
    rw [hrest, owned_cons] at hinv
    obtain ⟨hnone, -⟩ := hinv.alone (q := q) (by cases i <;> simp_all [Instr.tokens]) (bundled rest)
    rw [hands, tokens, hrest, owned_cons, owned_add, hnone, add_zero]
    exact i.card_messages q
  · have hnone : hands s q = 0 := by
      apply owned_eq_zero
      intro x hmem
      cases x with
      | hand q' message =>
          apply if_neg
          rintro rfl
          exact hx ⟨message, hmem⟩
      | _ => rfl
    rw [hnone]
    exact zero_le_one

/-! ### All runs -/

theorem Ordered.scheduled (h : Ordered s.shared s.todo) :
  Scheduled s
  := by
  have hinv : Inv s.shared (tokens s) := h.inv
  have hheld : ∀ q, 0 < s.shared.global.count q + (tokens s).count (.hold q) →
      q ∈ s.shared.global ∨ .hold q ∈ tokens s := by
    intro q hpos
    rcases Nat.add_pos_iff_pos_or_pos.mp hpos with hpos | hpos
    · exact .inl (List.count_pos_iff.mp hpos)
    · exact .inr (Multiset.count_pos.mp hpos)
  have hwaiting : ∀ q, (s.shared.queue q).messages ≠ [] → q ∈ s.shared.global ∨ .hold q ∈ tokens s :=
    fun q hq => hheld q ((hinv.sound q).waiting hq)
  constructor
  · exact hinv.running
  · exact hinv.untouched
  · exact hinv.count_hold
  · exact hwaiting
  · intro c handle hlife hover
    have hlisted : (s.shared.registry.life c).listed = true := by
      rw [hlife]
      rfl
    have hcreated : (s.shared.registry.life c).created = true := by
      rw [hlife]
      rfl
    constructor
    · by_contra hinit
      have hone := (hinv.sound c).young hcreated hlisted (Bool.not_eq_true _ ▸ hinit)
      have hyoung := count_young hover
      dsimp only [Node.service] at hone
      omega
    · intro hmessages
      apply (hwaiting c hmessages).imp_right
      apply works_of_hold h hover
      exact (hinv.sound c).release_of_listed hlisted
  · intro q
    obtain ⟨hand, hhand, horder⟩ := (hinv.sound q).order
    refine ⟨hand, hhand, ?_, horder⟩
    rw [← Multiset.coe_card, hhand]
    exact card_hands h q
  · exact hinv.own
  · intro q x hx
    obtain ⟨handle, hlife⟩ := (hinv.sound q).retired_of_release (hinv.dropped q (List.ne_nil_of_mem hx))
    refine ⟨handle, hlife, ?_⟩
    have hlife' : s.shared.registry.life q = .retired handle := hlife
    obtain ⟨hgiven, hhandle⟩ := hinv.handles q (by rw [hlife']; rfl)
    rw [hlife'] at hgiven
    rw [hinv.reported q x hx, hhandle, ← Option.some.inj hgiven, Node.errorTo]
  · intro q hfrees
    obtain ⟨hone, hrelease, hmessages, hhands⟩ := (hinv.sound q).frees.resolve_left hfrees
    obtain ⟨hand, hhand, horder⟩ := (hinv.sound q).order
    rw [hhands, Multiset.coe_eq_zero] at hhand
    rw [hhand, hmessages, List.append_nil, List.append_nil] at horder
    exact ⟨hone, horder, (hinv.sound q).retired_of_release hrelease⟩
  · intro q handle hlife hfrees
    obtain hrefs | hmarks | ⟨hrelease, hpos⟩ := (hinv.sound q).doomed hlife hfrees
    · exact .inl (Multiset.count_pos.mp hrefs)
    · exact .inr (.inl (Multiset.count_pos.mp hmarks))
    · exact .inr (.inr ⟨hrelease, hheld q hpos⟩)

end Inv

/-- Whether an instruction registers a context. -/
def Instr.registers : Instr → Bool
  | .contextNew _ => true
  | _ => false

theorem harmless_of_not_registers {w : Node} {i : Instr} (h : (!i.registers) = true) :
  Harmless w i
  := by
  cases i with
  | contextNew c => cases h
  | _ => trivial

/-- The first context to be registered is given a handle that nothing else has. -/
theorem harmless_start :
  Harmless (.start 1) (.contextNew 0)
  := by
  refine ⟨fun hfull => absurd rfl (hfull 0 (HandleStorage.slotSize_pos _)), ?_⟩
  intro registry handle hregister hlife
  have hfirst : ((Registry.start 1).register 0).map (fun registry => registry.life 0) =
      some (.registered 0x1000001) := by decide +kernel
  have hregister' : (Registry.start 1).register 0 = some registry := hregister
  rw [hregister', Option.map_some, hlife] at hfirst
  obtain rfl := Life.registered.inj (Option.some.inj hfirst)
  refine ⟨by decide, ?_⟩
  intro d _ hgiven
  cases hgiven

/-- Messages to the first service. -/
def ping : Message := ⟨5, 1, PTYPE_TEXT, [7]⟩

def pong : Message := ⟨6, 1, PTYPE_TEXT, [8]⟩

/-- A service is created, and two threads push a message to its queue; a worker dispatches them. -/
def served : List (Step Instr Bool) :=
  [.run 0 true, .run 0 true, .run 0 true, .run 0 true, .start (.contextPush 0x1000001 ping),
    .start (.contextPush 0x1000001 pong), .run 1 true, .run 2 true, .run 2 true, .run 1 true, .run 1 true, .run 2 true,
    .start (.worker (-1))] ++ List.replicate 9 (.run 3 true)

/-- As long as all steps are harmless, all queues are dealt with as they should be, whatever the threads do and in
whatever order. -/
theorem queues_scheduled {s : State Node Instr} (h : machine.Reaches (Allows Harmless) s) :
  Scheduled s
  := by
  apply Ordered.scheduled
  apply Programs.invariant Ordered _ _ _ h
  · rintro _ ⟨harbor, rfl⟩
    exact ordered_start harbor
  · exact fun w todo i hinv hstarts => hinv.start hstarts
  · exact fun w w' ok i js rest hinv hok hexecute => hinv.execute hok hexecute

theorem queues_scheduled_two :
  ∃ s, machine.exec ⟨.start 1, []⟩ (.start (.contextNew 0) :: .run 0 true :: served) = some s ∧
    s.shared.dispatched 0 = [(0, pong), (0, ping)] ∧ Scheduled s
  := by
  have hserved : (machine.exec ⟨.start 1, []⟩ (.start (.contextNew 0) :: .run 0 true :: served)).map
      (fun s => s.shared.dispatched 0) = some [(0, pong), (0, ping)] := by
    decide +kernel
  have hsafe : (machine.exec ⟨.start 1, []⟩ [.start (.contextNew 0), .run 0 true]).all
      (fun s => machine.passes (testStep fun _ i => !i.registers) s served) = true := by
    decide +kernel
  obtain ⟨s, hs, hdispatched⟩ := Option.map_eq_some_iff.mp hserved
  refine ⟨s, hs, hdispatched, ?_⟩
  have hinit : machine.Reaches (Allows Harmless) ⟨.start 1, []⟩ := .init ⟨⟨1, rfl⟩, rfl⟩
  refine queues_scheduled (hinit.exec _ ?_ hs)
  intro s₁ hs₁
  refine ⟨trivial, ?_⟩
  intro s₂ hs₂
  constructor
  · intro i hi
    obtain rfl := Option.some.inj hs₁
    obtain rfl := Option.some.inj hi
    exact harmless_start
  · rw [Machine.exec_cons hs₁, Machine.exec_cons hs₂] at hsafe
    exact guarded_of_passes _ (fun _ _ => harmless_of_not_registers) hsafe

/-- A service is created whose registration is overtaken by four others, and its initialisation fails. -/
def overtaken : List (Step Instr Bool) :=
  [.start (.contextNew 0), .run 0 true] ++
  [1, 2, 3].flatMap (fun c => [.start (.contextNew c), .run c true, .run c true]) ++
  [.start (.contextNew 4), .run 4 true, .run 0 true, .run 0 false, .run 0 true, .run 0 true, .run 0 true,
    .start (.worker 0)]

/-- A queue that is not released, and that no context is found for. -/
structure Stranded (w : Node) (q : ℕ) : Prop where
  running : ¬ (w.aborted = true ∨ w.registry.aborted = true)
  there : w.frees q = 0
  unreleased : (w.queue q).release = false
  unfound : w.registry.find (w.queue q).handle = none

/-- A worker takes a stranded queue out of the global queue, and puts it back, again and again. -/
theorem Stranded.exec {w : Node} {threads : List (List Instr)} {n q : ℕ} {weight : ℤ} (h : Stranded w q)
    (hglobal : w.global = [q]) (hthread : threads[n]? = some [.worker weight]) (b : Bool) :
  machine.exec ⟨w, threads⟩ [.run n b, .run n b, .run n b] = some ⟨w, threads⟩
  := by
  obtain ⟨hn, hself⟩ := List.getElem?_eq_some_iff.mp hthread
  have hset (threads : List (List Instr)) (hn : n < threads.length) (t : List Instr) :
      (threads.set n t)[n]? = some t := List.getElem?_set_self hn
  have hpop : w.execute b (.worker weight) = some ({ w with global := [] }, [.handleGrab weight q]) := by
    rw [Node.execute, if_neg h.running, Node.perform, Node.globalmqPop, hglobal]
    dsimp only
    rw [Node.touch_of_there h.there]
  have htouch : Node.touch { w with global := [] } q = { w with global := [] } := Node.touch_of_there h.there
  have hgrab : Node.execute { w with global := [] } b (.handleGrab weight q) =
      some ({ w with global := [] }, [.mqRelease q, .worker weight]) := by
    rw [Node.execute, if_neg h.running, Node.perform, htouch, Node.handleGrab, h.unfound]
  have hpush : Node.execute { w with global := [] } b (.mqRelease q) = some (w, []) := by
    have hempty : Node.globalmqPush { w with global := [] } q = { w with global := [q] } :=
      Node.globalmqPush_eq h.there (fun _ hq => absurd hq List.not_mem_nil) List.not_mem_nil
    rw [Node.execute, if_neg h.running, Node.perform, Node.mqRelease, htouch, hempty, ← hglobal]
    dsimp only
    rw [h.unreleased]
    rfl
  have h₁ : machine.step ⟨w, threads⟩ (.run n b) =
      some ⟨{ w with global := [] }, threads.set n [.handleGrab weight q]⟩ := step_run (P := programs) hthread hpop
  have h₂ : machine.step ⟨{ w with global := [] }, threads.set n [.handleGrab weight q]⟩ (.run n b) =
      some ⟨{ w with global := [] }, threads.set n [.mqRelease q, .worker weight]⟩ := by
    have htwice : threads.set n [.mqRelease q, .worker weight] =
        (threads.set n [.handleGrab weight q]).set n [.mqRelease q, .worker weight] := by
      rw [List.set_set]
    rw [htwice]
    exact step_run (P := programs) (hset threads hn _) hgrab
  have h₃ : machine.step ⟨{ w with global := [] }, threads.set n [.mqRelease q, .worker weight]⟩ (.run n b) =
      some ⟨w, threads⟩ := by
    have hback : threads = (threads.set n [.mqRelease q, .worker weight]).set n [.worker weight] := by
      rw [List.set_set, ← hself, List.set_getElem_self]
    conv_rhs => rw [hback]
    exact step_run (P := programs) (hset threads hn _) hpush
  rw [Machine.exec_cons h₁, Machine.exec_cons h₂, Machine.exec_cons h₃]
  rfl

/-- The context of a service is lost when the table is grown before its handle has been stored.  When its
initialisation fails, its queue is neither freed nor on its way to be freed: a worker takes it and puts it back. -/
theorem queue_not_freed :
  ∃ s, machine.Reachable s ∧ ¬ Scheduled s ∧ s.shared.registry.life 0 = .retired 0x1000001 ∧
    s.shared.frees 0 = 0 ∧ machine.exec s [.run 5 true, .run 5 true, .run 5 true] = some s
  := by
  have hrun : (machine.exec ⟨.start 1, []⟩ overtaken).map (fun s =>
      ((s.shared.registry.life 0, s.shared.frees 0), (tokens s).count (.ref 0), (tokens s).count (.mark 0))) =
        some ((.retired 0x1000001, 0), 0, 0) := by
    decide +kernel
  have hstranded : (machine.exec ⟨.start 1, []⟩ overtaken).map (fun s =>
      ((s.shared.global, s.threads[5]?), (s.shared.queue 0).release,
        s.shared.registry.find (s.shared.queue 0).handle, s.shared.aborted || s.shared.registry.aborted)) =
        some (([0], some [.worker 0]), false, none, false) := by
    decide +kernel
  obtain ⟨s, hs, hvalues⟩ := Option.map_eq_some_iff.mp hrun
  rw [hs, Option.map_some] at hstranded
  obtain ⟨hlife, hrefs⟩ := Prod.mk.inj hvalues
  obtain ⟨hlife, hfrees⟩ := Prod.mk.inj hlife
  obtain ⟨hrefs, hmarks⟩ := Prod.mk.inj hrefs
  obtain ⟨hglobal, hqueue⟩ := Prod.mk.inj (Option.some.inj hstranded)
  obtain ⟨hglobal, hthread⟩ := Prod.mk.inj hglobal
  obtain ⟨hrelease, hqueue⟩ := Prod.mk.inj hqueue
  obtain ⟨hfind, hrunning⟩ := Prod.mk.inj hqueue
  have hreachable : machine.Reachable s := Machine.Reachable.exec _ (.init ⟨⟨1, rfl⟩, rfl⟩) hs
  refine ⟨s, hreachable, ?_, hlife, hfrees, ?_⟩
  · intro h
    obtain href | hmark | ⟨hreleased, -⟩ := h.doomed 0 _ hlife hfrees
    · exact Multiset.count_ne_zero.mpr href hrefs
    · exact Multiset.count_ne_zero.mpr hmark hmarks
    · cases hrelease.symm.trans hreleased
  · have hstranded : Stranded s.shared 0 := by
      refine ⟨?_, hfrees, hrelease, hfind⟩
      rw [← Bool.or_eq_true, hrunning]
      exact Bool.false_ne_true
    exact hstranded.exec hglobal hthread true
end Scheduler

end Skynet
