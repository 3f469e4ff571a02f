import FWServer.Skynet.Handles
import FWServer.Skynet.MessageQueue
import Mathlib.Data.Multiset.AddSub

/-!
# The life of a service

What there is of one service in a node: its context and its queue, and what the threads own of it.  The threads
own references to the context, the right to mark the queue as released, and the queue itself while it is not in
the global queue; they may have in their hands a message that they have taken out of the queue.

The operations are what a step of a thread may do to a service, and `Service.Sound` is what they all keep.
-/

namespace Skynet

/-- The handle that a context has been given. -/
def Life.given : Life → Option ℕ
  | .unborn => none
  | .registered handle => some handle
  | .live handle => some handle
  | .retired handle => some handle

/-- Whether the queue of a context has been created. -/
def Life.created : Life → Bool
  | .live _ => true
  | .retired _ => true
  | _ => false

/-- Whether a context has yet to be given its queue. -/
def Life.awaited : Life → Bool
  | .registered _ => true
  | _ => false

namespace Scheduler

/-- A service and what the threads own of it: `refs` references, `marks` rights to mark the queue, the queue
`holds` times, and `hands`, the messages.  A thread is about to create the queue, `creating`, or to end the creation
of the service, `young`.  The queue is `inList` times in the global queue. -/
structure Service where
  life : Life
  ref : ℤ
  refs : ℕ
  marks : ℕ
  init : Bool
  creating : ℕ
  young : ℕ
  release : Bool
  inGlobal : Bool
  inList : ℕ
  holds : ℕ
  frees : ℕ
  messages : List Message
  hands : Multiset Message
  accepted : List Message
  taken : List Message

namespace Service

/-- What always holds of a service. -/
structure Sound (v : Service) : Prop where
  creating : v.creating = if v.life.awaited then 1 else 0
  /-- The table and the threads own the references. -/
  refs : v.ref = (if v.life.listed then 1 else 0) + v.refs
  /-- The queue is marked once, when there are no references any more. -/
  marks : (if 0 < v.ref then 1 else 0) + v.marks + (if v.release then 1 else 0) =
    if v.life = .unborn then 0 else 1
  /-- A queue is in the global queue or owned by a thread, never both, unless it is empty and still in use. -/
  holds : v.inList + v.holds =
    if v.life.created ∧ v.frees = 0 ∧ (v.inGlobal ∨ v.release) then 1 else 0
  frees : v.frees = 0 ∨ v.frees = 1 ∧ v.release = true ∧ v.messages = [] ∧ v.hands = 0
  empty : v.inGlobal = false → v.messages = []
  fresh : v.life.created = false → v.messages = []
  /-- A service that can be found has been initialised, or a thread is about to end its creation. -/
  young : v.life.created = true → v.life.listed = true → v.init = false → 1 ≤ v.young
  /-- The messages are taken in the order in which they have been accepted. -/
  order : ∃ hand : List Message, ↑hand = v.hands ∧ v.accepted = v.taken ++ hand ++ v.messages

/-! ### What a step may do to a service -/

/-- A context is registered. -/
def register (v : Service) (handle : ℕ) : Service :=
  { v with life := .registered handle, ref := 2, refs := v.refs + 1, creating := v.creating + 1, init := false }

/-- The queue is created. -/
def create (v : Service) (handle : ℕ) : Service :=
  { v with
    life := .live handle
    creating := v.creating - 1
    young := v.young + 1
    release := false
    inGlobal := true
    holds := v.holds + 1
    messages := [] }

/-- A reference is made. -/
def grab (v : Service) : Service :=
  { v with ref := v.ref + 1, refs := v.refs + 1 }

/-- A reference is given up; the last leaves the queue to be marked. -/
def unref (v : Service) : Service :=
  { v with ref := v.ref - 1, refs := v.refs - 1, marks := v.marks + if v.ref - 1 = 0 then 1 else 0 }

/-- The creation ends. -/
def settle (v : Service) (init : Bool) : Service :=
  { v with init := init, young := v.young - 1 }

/-- The queue is marked. -/
def mark (v : Service) : Service :=
  { v with
    marks := v.marks - 1
    release := true
    inList := v.inList + if v.inGlobal then 0 else 1 }

/-- The table gives up its reference. -/
def retire (v : Service) (handle : ℕ) : Service :=
  { v with life := .retired handle, refs := v.refs + 1 }

/-- The queue is put in the global queue. -/
def enlist (v : Service) : Service :=
  { v with inList := v.inList + 1, holds := v.holds - 1 }

/-- The queue is taken out of the global queue. -/
def delist (v : Service) : Service :=
  { v with inList := v.inList - 1, holds := v.holds + 1 }

/-- A message is pushed. -/
def push (v : Service) (message : Message) : Service :=
  { v with
    messages := v.messages ++ [message]
    accepted := v.accepted ++ [message]
    inGlobal := true
    inList := v.inList + if v.inGlobal then 0 else 1 }

/-- A message is taken out of the queue. -/
def pop (v : Service) (message : Message) : Service :=
  { v with messages := v.messages.tail, hands := message ::ₘ v.hands }

/-- The queue is found empty and left. -/
def leave (v : Service) : Service :=
  { v with inGlobal := false, holds := v.holds - 1 }

/-- The queue is found empty when it is dropped. -/
def drain (v : Service) : Service :=
  { v with inGlobal := false }

/-- The message in the hands of a thread is dispatched or dropped. -/
def take (v : Service) (message : Message) : Service :=
  { v with hands := 0, taken := v.taken ++ [message] }

/-- The queue is freed. -/
def free (v : Service) : Service :=
  { v with holds := v.holds - 1, frees := v.frees + 1 }

/-! ### What a service is like -/

section Sound

variable {v : Service} {handle : ℕ} {message : Message}

/-- A service that a thread has a reference to is not released. -/
theorem Sound.release_of_refs (h : v.Sound) (hrefs : 0 < v.refs) :
  v.release = false ∧ v.frees = 0 ∧ 0 < v.ref
  := by
  have := h.refs
  have := h.marks
  have := h.frees
  grind

/-- A service that can be found is not freed. -/
theorem Sound.frees_of_listed (h : v.Sound) (hlisted : v.life.listed = true) :
  v.frees = 0
  := by
  have := h.refs
  have := h.marks
  have := h.frees
  grind

/-- A queue that is owned or in the global queue is there, and once only. -/
theorem Sound.frees_of_holds (h : v.Sound) (hholds : 0 < v.inList + v.holds) :
  v.frees = 0 ∧ v.inList + v.holds = 1 ∧ v.life.created = true
  := by
  have := h.holds
  grind

/-- A queue is in the global queue or owned, but not both. -/
theorem Sound.once (h : v.Sound) :
  v.inList + v.holds ≤ 1
  := by
  have := h.holds
  grind

/-- A queue that is empty and in use is neither in the global queue nor owned. -/
theorem Sound.idle (h : v.Sound) (hglobal : v.inGlobal = false) (hrelease : v.release = false) :
  v.inList = 0 ∧ v.holds = 0
  := by
  have := h.holds
  grind

/-- A queue that is to be marked is not released. -/
theorem Sound.release_of_marks (h : v.Sound) (hmarks : 0 < v.marks) :
  v.release = false ∧ v.frees = 0 ∧ v.ref ≤ 0 ∧ v.life.created = true ∧ v.life.listed = false
  := by
  have := h.refs
  have := h.marks
  have := h.frees
  cases hlife : v.life <;> grind [Life.listed, Life.created]

/-- A service that can be found is not released. -/
theorem Sound.release_of_listed (h : v.Sound) (hlisted : v.life.listed = true) :
  v.release = false
  := by
  have := h.refs
  have := h.marks
  grind

/-- A queue that is not empty is in the global queue or owned. -/
theorem Sound.waiting (h : v.Sound) (hmessages : v.messages ≠ []) :
  0 < v.inList + v.holds
  := by
  have := h.holds
  have := h.frees
  have := h.empty
  have := h.fresh
  grind

/-- A service is retired before its queue is released. -/
theorem Sound.retired_of_release (h : v.Sound) (hrelease : v.release = true) :
  ∃ handle, v.life = .retired handle
  := by
  have := h.refs
  have := h.marks
  cases hlife : v.life <;> grind [Life.listed]

/-- The queue of a retired service is owned or in the global queue until it is freed, unless threads have references
to the service or are to mark the queue. -/
theorem Sound.doomed (h : v.Sound) (hlife : v.life = .retired handle) (hfrees : v.frees = 0) :
  0 < v.refs ∨ 0 < v.marks ∨ v.release = true ∧ 0 < v.inList + v.holds
  := by
  obtain ⟨hcreating, hrefs, hmarks, hholds, -⟩ := h
  rw [hlife] at hrefs hmarks hholds
  grind [Life.listed, Life.created]

/-! ### What the operations keep -/

theorem Sound.register (h : v.Sound) (handle : ℕ) (hlife : v.life = .unborn) :
  (v.register handle).Sound
  := by
  obtain ⟨hcreating, hrefs, hmarks, hholds, hfrees, hempty, hfresh, hyoung, horder⟩ := h
  rw [hlife] at hcreating hrefs hmarks hholds hfresh
  constructor <;> grind [Service.register, Life.listed, Life.created, Life.awaited]

theorem Sound.create (h : v.Sound) (hlife : v.life = .registered handle) :
  (v.create handle).Sound
  := by
  obtain ⟨hcreating, hrefs, hmarks, hholds, hfrees, hempty, hfresh, hyoung, horder⟩ := h
  rw [hlife] at hcreating hrefs hmarks hholds hfresh
  constructor <;> grind [Service.create, Life.listed, Life.created, Life.awaited]

theorem Sound.grab (h : v.Sound) (hlife : v.life = .live handle) :
  v.grab.Sound
  := by
  obtain ⟨hcreating, hrefs, hmarks, hholds, hfrees, hempty, hfresh, hyoung, horder⟩ := h
  constructor <;> grind [Service.grab, Life.listed]

theorem Sound.unref (h : v.Sound) (hpos : 0 < v.refs) :
  v.unref.Sound
  := by
  obtain ⟨hcreating, hrefs, hmarks, hholds, hfrees, hempty, hfresh, hyoung, horder⟩ := h
  constructor <;> grind [Service.unref, Life.listed]

theorem Sound.settle (h : v.Sound) (init : Bool) (hinit : v.life.listed = true → init = true) :
  (v.settle init).Sound
  := by
  obtain ⟨hcreating, hrefs, hmarks, hholds, hfrees, hempty, hfresh, hyoung, horder⟩ := h
  constructor <;> grind [Service.settle]

theorem Sound.mark (h : v.Sound) (hpos : 0 < v.marks) :
  v.mark.Sound
  := by
  obtain ⟨hrelease, hfree, href, hcreated, hlisted⟩ := h.release_of_marks hpos
  obtain ⟨hcreating, hrefs, hmarks, hholds, hfrees, hempty, hfresh, hyoung, horder⟩ := h
  constructor <;> grind [Service.mark]

theorem Sound.retire (h : v.Sound) (hlife : v.life = .live handle) :
  (v.retire handle).Sound
  := by
  obtain ⟨hcreating, hrefs, hmarks, hholds, hfrees, hempty, hfresh, hyoung, horder⟩ := h
  constructor <;> grind [Service.retire, Life.listed, Life.created, Life.awaited]

theorem Sound.enlist (h : v.Sound) (hpos : 0 < v.holds) :
  v.enlist.Sound
  := by
  obtain ⟨hcreating, hrefs, hmarks, hholds, hfrees, hempty, hfresh, hyoung, horder⟩ := h
  constructor <;> grind [Service.enlist]

theorem Sound.delist (h : v.Sound) (hpos : 0 < v.inList) :
  v.delist.Sound
  := by
  obtain ⟨hcreating, hrefs, hmarks, hholds, hfrees, hempty, hfresh, hyoung, horder⟩ := h
  constructor <;> grind [Service.delist]

theorem Sound.push (h : v.Sound) (message : Message) (hpos : 0 < v.refs) (hcreated : v.life.created = true) :
  (v.push message).Sound
  := by
  obtain ⟨hrelease, hfree, href⟩ := h.release_of_refs hpos
  obtain ⟨hcreating, hrefs, hmarks, hholds, hfrees, hempty, hfresh, hyoung, hand, hhand, horder⟩ := h
  constructor
  case order => exact ⟨hand, hhand, by simp [Service.push, horder]⟩
  all_goals grind [Service.push]

theorem Sound.pop (h : v.Sound) (hhands : v.hands = 0) (hmessage : v.messages.head? = some message)
    (hfree : v.frees = 0) :
  (v.pop message).Sound
  := by
  obtain ⟨hcreating, hrefs, hmarks, hholds, hfrees, hempty, hfresh, hyoung, hand, hhand, horder⟩ := h
  obtain ⟨rest, hmessages⟩ := List.head?_eq_some_iff.mp hmessage
  constructor
  case order =>
    rw [hhands, Multiset.coe_eq_zero] at hhand
    refine ⟨[message], ?_, ?_⟩
    · simp [Service.pop, hhands]
    · simp [Service.pop, horder, hhand, hmessages]
  all_goals grind [Service.pop]

theorem Sound.leave (h : v.Sound) (hmessages : v.messages = []) (hpos : 0 < v.holds) (hrefs : 0 < v.refs) :
  v.leave.Sound
  := by
  obtain ⟨hrelease, hfree, href⟩ := h.release_of_refs hrefs
  obtain ⟨hcreating, hrefs, hmarks, hholds, hfrees, hempty, hfresh, hyoung, horder⟩ := h
  constructor <;> grind [Service.leave]

theorem Sound.drain (h : v.Sound) (hmessages : v.messages = []) (hrelease : v.release = true) :
  v.drain.Sound
  := by
  obtain ⟨hcreating, hrefs, hmarks, hholds, hfrees, hempty, hfresh, hyoung, horder⟩ := h
  constructor <;> grind [Service.drain]

theorem Sound.take (h : v.Sound) (hhands : v.hands = {message}) :
  (v.take message).Sound
  := by
  obtain ⟨hcreating, hrefs, hmarks, hholds, hfrees, hempty, hfresh, hyoung, hand, hhand, horder⟩ := h
  constructor
  case order =>
    rw [hhands, Multiset.coe_eq_singleton] at hhand
    refine ⟨[], rfl, ?_⟩
    simp [Service.take, horder, hhand]
  all_goals grind [Service.take]

theorem Sound.free (h : v.Sound) (hpos : 0 < v.holds) (hrelease : v.release = true)
    (hmessages : v.messages = []) (hhands : v.hands = 0) :
  v.free.Sound
  := by
  obtain ⟨hcreating, hrefs, hmarks, hholds, hfrees, hempty, hfresh, hyoung, horder⟩ := h
  constructor <;> grind [Service.free]

end Sound

end Service

end Scheduler

end Skynet
