import FWServer.Kernel.Machine
import Mathlib.Data.Int.Notation
import Mathlib.Data.List.Nodup
import Mathlib.Logic.Function.Basic

/-!
# The queue of a service

`lualib/skynet/queue.lua`: the function that `skynet.queue` returns runs functions one at a time, although they
may yield.  The coroutine that runs one holds the lock, and may call again from inside; others wait in
`skynet.wait` and are woken in turn.

The steps are those of the coroutines of one service: one calls, one finishes its innermost function, by
returning or by raising, and one that has been woken is resumed by the scheduler, in any order
(`ThreadQueue.queue_fair`).  A coroutine that waits for the queue is woken by nothing else.
-/

namespace Skynet

/-- The variables that the function returned by `skynet.queue` shares between its calls. -/
structure ThreadQueue (τ : Type) where
  current_thread : Option τ
  ref : ℤ
  thread_queue : List τ

namespace ThreadQueue

/-- The coroutines of a service: those that wait, those that the scheduler is going to resume, how many functions
each is in, and whether `assert(ref == 0)` has failed.  `called` and `entered` are the coroutines that have called
from outside and that have entered, in order. -/
structure World (τ : Type) where
  queue : ThreadQueue τ
  sleep_session : τ → Bool
  wakeup_queue : List τ
  depth : τ → ℕ
  failed : Bool
  called : List τ
  entered : List τ

/-- A coroutine calls the function; the innermost function that one is in returns, or raises; one is resumed. -/
inductive Label (τ : Type) where
  | call (thread : τ)
  | finish (thread : τ) (ok : Bool)
  | resume (thread : τ)

section

variable {τ : Type} [DecidableEq τ]

/-- `skynet.wait` by a coroutine. -/
def wait (w : World τ) (thread : τ) : World τ :=
  { w with sleep_session := Function.update w.sleep_session thread true }

/-- `skynet.wakeup` -/
def wakeup (w : World τ) (thread : τ) : World τ :=
  if w.sleep_session thread then { w with wakeup_queue := w.wakeup_queue ++ [thread] } else w

/-- The last lines of the function, up to `f`. -/
def enter (w : World τ) (thread : τ) : World τ :=
  { w with
    queue := { w.queue with current_thread := some thread, ref := w.queue.ref + 1 }
    depth := Function.update w.depth thread (w.depth thread + 1)
    entered := if w.depth thread = 0 then w.entered ++ [thread] else w.entered }

/-- The function, up to `skynet.wait` or up to `f`. -/
def call (w : World τ) (thread : τ) : World τ :=
  let w := { w with called := if w.depth thread = 0 then w.called ++ [thread] else w.called }
  if w.queue.current_thread ≠ none ∧ w.queue.current_thread ≠ some thread then
    wait { w with queue := { w.queue with thread_queue := w.queue.thread_queue ++ [thread] } } thread
  else enter w thread

/-- The function from `skynet.wait` on. -/
def resume (w : World τ) (thread : τ) : World τ :=
  let w := { w with
    wakeup_queue := w.wakeup_queue.erase thread
    sleep_session := Function.update w.sleep_session thread false }
  if w.queue.ref = 0 then enter w thread else { w with failed := true }

/-- `xpcall_ret`; it returns whether `assert(ok, (...))` lets it return. -/
def xpcallRet (w : World τ) (ok : Bool) : World τ × Bool :=
  let w := { w with queue := { w.queue with ref := w.queue.ref - 1 } }
  if w.queue.ref = 0 then
    match w.queue.thread_queue with
    | [] => ({ w with queue := { w.queue with current_thread := none } }, ok)
    | thread :: rest =>
        (wakeup { w with queue := { w.queue with current_thread := some thread, thread_queue := rest } } thread,
          ok)
  else (w, ok)

/-- A coroutine leaves its innermost function. -/
def finish (w : World τ) (thread : τ) (ok : Bool) : World τ × Bool :=
  xpcallRet { w with depth := Function.update w.depth thread (w.depth thread - 1) } ok

/-- What a coroutine may do: one that waits does nothing until it has been woken. -/
def step (w : World τ) : Label τ → Option (World τ)
  | .call thread => if w.sleep_session thread then none else some (call w thread)
  | .finish thread ok =>
      if w.depth thread = 0 ∨ w.sleep_session thread then none else some (finish w thread ok).1
  | .resume thread =>
      if thread ∈ w.wakeup_queue ∧ w.sleep_session thread then some (resume w thread) else none

/-- Nobody has called. -/
structure Started (w : World τ) : Prop where
  current_thread : w.queue.current_thread = none
  ref : w.queue.ref = 0
  thread_queue : w.queue.thread_queue = []
  sleep_session : ∀ t, w.sleep_session t = false
  wakeup_queue : w.wakeup_queue = []
  depth : ∀ t, w.depth t = 0
  failed : w.failed = false
  logs : w.called = [] ∧ w.entered = []

def machine (τ : Type) [DecidableEq τ] : Machine (World τ) (Label τ) where
  init := Started
  step := step

end

variable {τ : Type} [DecidableEq τ] {w w' : World τ} {t c : τ}

/-! ### Who holds the lock -/

/-- What holds in every state, whoever holds the lock. -/
structure Sound (w : World τ) : Prop where
  failed : w.failed = false
  nodup : w.queue.thread_queue.Nodup

/-- Nobody is inside or waits. -/
structure Free (w : World τ) : Prop extends Sound w where
  current_thread : w.queue.current_thread = none
  ref : w.queue.ref = 0
  thread_queue : w.queue.thread_queue = []
  sleep_session : ∀ t, w.sleep_session t = false
  wakeup_queue : w.wakeup_queue = []
  depth : ∀ t, w.depth t = 0
  called : w.called = w.entered

/-- The coroutine `c` is inside, and those in the queue wait. -/
structure Held (w : World τ) (c : τ) : Prop extends Sound w where
  current_thread : w.queue.current_thread = some c
  ref : w.queue.ref = w.depth c
  inside : 0 < w.depth c
  sleep_session : ∀ t, w.sleep_session t = true ↔ t ∈ w.queue.thread_queue
  holder : c ∉ w.queue.thread_queue
  wakeup_queue : w.wakeup_queue = []
  depth : ∀ t, t ≠ c → w.depth t = 0
  called : w.called = w.entered ++ w.queue.thread_queue

/-- The lock has been passed to the coroutine `c`, which has not been resumed. -/
structure Passed (w : World τ) (c : τ) : Prop extends Sound w where
  current_thread : w.queue.current_thread = some c
  ref : w.queue.ref = 0
  sleep_session : ∀ t, w.sleep_session t = true ↔ t = c ∨ t ∈ w.queue.thread_queue
  holder : c ∉ w.queue.thread_queue
  wakeup_queue : w.wakeup_queue = [c]
  depth : ∀ t, w.depth t = 0
  called : w.called = w.entered ++ c :: w.queue.thread_queue

/-- These are all the states there are. -/
inductive Good (w : World τ) : Prop
  | free (hfree : Free w)
  | held (c : τ) (hheld : Held w c)
  | passed (c : τ) (hpassed : Passed w c)

/-! ### One step -/

theorem depth_update_of_ne (hne : t ≠ c) (hzero : w.depth t = 0) (n : ℕ) :
  Function.update w.depth c n t = 0
  := by rwa [Function.update_of_ne hne]

/-- Nobody waits, and the coroutine enters. -/
theorem Free.call (hfree : Free w) (c : τ) :
  Held (ThreadQueue.call w c) c
  := by
  have hcall : ThreadQueue.call w c = enter { w with called := w.called ++ [c] } c := by
    unfold ThreadQueue.call
    dsimp only
    rw [if_pos (hfree.depth c), if_neg fun hand => hand.1 hfree.current_thread]
  have henter : (enter { w with called := w.called ++ [c] } c).entered = w.entered ++ [c] :=
    if_pos (hfree.depth c)
  have hdepth : (enter { w with called := w.called ++ [c] } c).depth c = 1 := by
    unfold enter
    dsimp only
    rw [Function.update_self, hfree.depth c]
  have href : (enter { w with called := w.called ++ [c] } c).queue.ref = 1 := by
    unfold enter
    dsimp only
    rw [hfree.ref]
    rfl
  have hqueue : (enter { w with called := w.called ++ [c] } c).queue.thread_queue = [] := hfree.thread_queue
  rw [hcall]
  constructor
  · constructor
    · exact hfree.failed
    · exact hfree.nodup
  · rfl
  · rw [href, hdepth]
    rfl
  · rw [hdepth]
    exact Nat.one_pos
  · intro t
    apply iff_of_false
    · exact ne_true_of_eq_false (hfree.sleep_session t)
    · rw [hqueue]
      exact List.not_mem_nil
  · rw [hqueue]
    exact List.not_mem_nil
  · exact hfree.wakeup_queue
  · exact fun t hne => depth_update_of_ne hne (hfree.depth t) _
  · rw [henter, hqueue, List.append_nil]
    exact congrArg (· ++ [c]) hfree.called

/-- The coroutine that is inside calls again, and does not wait. -/
theorem Held.call_again (hheld : Held w c) :
  Held (ThreadQueue.call w c) c
  := by
  have hinside : w.depth c ≠ 0 := Nat.ne_of_gt hheld.inside
  have hcall : ThreadQueue.call w c = enter w c := by
    unfold ThreadQueue.call
    dsimp only
    rw [if_neg hinside, if_neg fun hand => hand.2 hheld.current_thread]
  have henter : (enter w c).entered = w.entered := if_neg hinside
  have hdepth : (enter w c).depth c = w.depth c + 1 := Function.update_self _ _ _
  rw [hcall]
  constructor
  · constructor
    · exact hheld.failed
    · exact hheld.nodup
  · rfl
  · rw [hdepth]
    unfold enter
    dsimp only
    rw [hheld.ref]
    rfl
  · rw [hdepth]
    exact Nat.succ_pos _
  · exact hheld.sleep_session
  · exact hheld.holder
  · exact hheld.wakeup_queue
  · exact fun t hne => depth_update_of_ne hne (hheld.depth t hne) _
  · rw [henter]
    exact hheld.called

/-- Another coroutine calls, and waits. -/
theorem call_eq_wait (hcurrent : w.queue.current_thread = some c) (hne : t ≠ c) (hdepth : w.depth t = 0) :
  ThreadQueue.call w t = wait { w with
    called := w.called ++ [t]
    queue := { w.queue with thread_queue := w.queue.thread_queue ++ [t] } } t
  := by
  have hwait : w.queue.current_thread ≠ none ∧ w.queue.current_thread ≠ some t := by
    rw [hcurrent]
    exact ⟨nofun, fun heq => hne (Option.some.inj heq).symm⟩
  unfold ThreadQueue.call
  dsimp only
  rw [if_pos hdepth, if_pos hwait]

theorem wait_sleep_session (w : World τ) (t s : τ) :
  (wait w t).sleep_session s = true ↔ s = t ∨ w.sleep_session s = true
  := by
  unfold wait
  dsimp only
  rcases eq_or_ne s t with rfl | hne
  · rw [Function.update_self]
    exact iff_of_true rfl (.inl rfl)
  · rw [Function.update_of_ne hne]
    exact (or_iff_right hne).symm

theorem nodup_append {α : Type} {l : List α} {a : α} (hnodup : l.Nodup) (ha : a ∉ l) :
  (l ++ [a]).Nodup
  := by
  rw [← List.concat_eq_append]
  exact hnodup.concat ha

theorem Held.call (hheld : Held w c) (hne : t ≠ c) (hawake : w.sleep_session t = false) :
  Held (ThreadQueue.call w t) c
  := by
  have hout : t ∉ w.queue.thread_queue := by
    intro hmem
    rw [(hheld.sleep_session t).mpr hmem] at hawake
    contradiction
  rw [call_eq_wait hheld.current_thread hne (hheld.depth t hne)]
  constructor
  · constructor
    · exact hheld.failed
    · exact nodup_append hheld.nodup hout
  · exact hheld.current_thread
  · exact hheld.ref
  · exact hheld.inside
  · intro s
    rw [wait_sleep_session, hheld.sleep_session s, or_comm]
    exact (List.mem_append.trans (or_congr_right List.mem_singleton)).symm
  · intro hmem
    rcases List.mem_append.mp hmem with hmem | hmem
    · exact hheld.holder hmem
    · exact hne (List.mem_singleton.mp hmem).symm
  · exact hheld.wakeup_queue
  · exact hheld.depth
  · have hcalled := congrArg (· ++ [t]) hheld.called
    rwa [List.append_assoc] at hcalled

theorem Passed.call (hpassed : Passed w c) (hawake : w.sleep_session t = false) :
  Passed (ThreadQueue.call w t) c
  := by
  have hout : ¬(t = c ∨ t ∈ w.queue.thread_queue) := by
    rw [← hpassed.sleep_session t, hawake]
    exact nofun
  rw [not_or] at hout
  rw [call_eq_wait hpassed.current_thread hout.1 (hpassed.depth t)]
  constructor
  · constructor
    · exact hpassed.failed
    · exact nodup_append hpassed.nodup hout.2
  · exact hpassed.current_thread
  · exact hpassed.ref
  · intro s
    rw [wait_sleep_session, hpassed.sleep_session s, or_left_comm]
    apply or_congr_right
    exact or_comm.trans (List.mem_append.trans (or_congr_right List.mem_singleton)).symm
  · intro hmem
    rcases List.mem_append.mp hmem with hmem | hmem
    · exact hpassed.holder hmem
    · exact hout.1 (List.mem_singleton.mp hmem).symm
  · exact hpassed.wakeup_queue
  · exact hpassed.depth
  · have hcalled := congrArg (· ++ [t]) hpassed.called
    rwa [List.append_assoc] at hcalled

/-- The coroutine to which the lock has been passed is resumed. -/
theorem Passed.resume (hpassed : Passed w c) :
  Held (ThreadQueue.resume w c) c
  := by
  have hresume : ThreadQueue.resume w c = enter { w with
      wakeup_queue := w.wakeup_queue.erase c
      sleep_session := Function.update w.sleep_session c false } c := if_pos hpassed.ref
  have henter : (ThreadQueue.resume w c).entered = w.entered ++ [c] := by
    rw [hresume]
    exact if_pos (hpassed.depth c)
  have hdepth : (ThreadQueue.resume w c).depth c = 1 := by
    rw [hresume]
    unfold enter
    dsimp only
    rw [Function.update_self, hpassed.depth c]
  have href : (ThreadQueue.resume w c).queue.ref = 1 := by
    rw [hresume]
    unfold enter
    dsimp only
    rw [hpassed.ref]
    rfl
  have hsleep (s : τ) : (ThreadQueue.resume w c).sleep_session s = Function.update w.sleep_session c false s := by
    rw [hresume]
    rfl
  have hqueue : (ThreadQueue.resume w c).queue.thread_queue = w.queue.thread_queue := by
    rw [hresume]
    rfl
  constructor
  · constructor
    · rw [hresume]
      exact hpassed.failed
    · rw [hqueue]
      exact hpassed.nodup
  · rw [hresume]
    rfl
  · rw [href, hdepth]
    rfl
  · rw [hdepth]
    exact Nat.one_pos
  · intro s
    rw [hsleep, hqueue]
    rcases eq_or_ne s c with rfl | hne
    · rw [Function.update_self]
      exact iff_of_false nofun hpassed.holder
    · rw [Function.update_of_ne hne, hpassed.sleep_session s]
      exact or_iff_right hne
  · rw [hqueue]
    exact hpassed.holder
  · rw [hresume]
    have herase : w.wakeup_queue.erase c = [] := by
      rw [hpassed.wakeup_queue]
      apply List.erase_cons_head
    exact herase
  · intro s hne
    rw [hresume]
    exact depth_update_of_ne hne (hpassed.depth s) _
  · have hcalled : (ThreadQueue.resume w c).called = w.called := by
      rw [hresume]
      rfl
    rw [hcalled, henter, hqueue, hpassed.called, List.append_assoc]
    rfl

/-- The last function of the coroutine that is inside ends, and nobody waits. -/
theorem Held.release (hheld : Held w c) (hlast : w.depth c = 1) (hnone : w.queue.thread_queue = []) (ok : Bool) :
  Free (finish w c ok).1
  := by
  have href : w.queue.ref - 1 = 0 := by
    rw [hheld.ref, hlast]
    rfl
  have hfinish : (finish w c ok).1 = { w with
      depth := Function.update w.depth c (w.depth c - 1)
      queue := { w.queue with current_thread := none, ref := w.queue.ref - 1 } } := by
    unfold finish xpcallRet
    dsimp only
    rw [if_pos href, hnone]
  rw [hfinish]
  constructor
  · constructor
    · exact hheld.failed
    · exact hheld.nodup
  · rfl
  · exact href
  · exact hnone
  · intro s
    have hsleep := hheld.sleep_session s
    rw [hnone] at hsleep
    exact eq_false_of_ne_true fun heq => List.not_mem_nil (hsleep.mp heq)
  · exact hheld.wakeup_queue
  · intro s
    rcases eq_or_ne s c with rfl | hne
    · exact (Function.update_self _ _ _).trans (by rw [hlast])
    · exact depth_update_of_ne hne (hheld.depth s hne) _
  · have hcalled := hheld.called
    rw [hnone, List.append_nil] at hcalled
    exact hcalled

/-- It ends, and the lock is passed to the first that waits. -/
theorem Held.pass (hheld : Held w c) (hlast : w.depth c = 1) {next : τ} {rest : List τ}
    (hsome : w.queue.thread_queue = next :: rest) (ok : Bool) :
  Passed (finish w c ok).1 next ∧ (finish w c ok).1.queue.thread_queue = rest
  := by
  have href : w.queue.ref - 1 = 0 := by
    rw [hheld.ref, hlast]
    rfl
  have hwaits : w.sleep_session next = true := by
    rw [hheld.sleep_session, hsome]
    exact List.mem_cons_self
  have hfinish : (finish w c ok).1 = { w with
      depth := Function.update w.depth c (w.depth c - 1)
      queue := ⟨some next, w.queue.ref - 1, rest⟩
      wakeup_queue := w.wakeup_queue ++ [next] } := by
    unfold finish xpcallRet
    dsimp only
    rw [if_pos href, hsome]
    exact if_pos hwaits
  have hnodup := hheld.nodup
  rw [hsome, List.nodup_cons] at hnodup
  rw [hfinish]
  refine ⟨?_, rfl⟩
  constructor
  · constructor
    · exact hheld.failed
    · exact hnodup.2
  · rfl
  · exact href
  · intro s
    have hsleep := hheld.sleep_session s
    rw [hsome, List.mem_cons] at hsleep
    exact hsleep
  · exact hnodup.1
  · exact congrArg (· ++ [next]) hheld.wakeup_queue
  · intro s
    rcases eq_or_ne s c with rfl | hne
    · exact (Function.update_self _ _ _).trans (by rw [hlast])
    · exact depth_update_of_ne hne (hheld.depth s hne) _
  · have hcalled := hheld.called
    rwa [hsome] at hcalled

/-- A function inside another ends. -/
theorem Held.finish (hheld : Held w c) (hmore : w.depth c ≠ 1) (ok : Bool) :
  Held (ThreadQueue.finish w c ok).1 c
  := by
  have hinside := hheld.inside
  have href : w.queue.ref - 1 ≠ 0 := by
    rw [hheld.ref]
    omega
  have hfinish : (ThreadQueue.finish w c ok).1 = { w with
      depth := Function.update w.depth c (w.depth c - 1)
      queue := { w.queue with ref := w.queue.ref - 1 } } := by
    unfold ThreadQueue.finish xpcallRet
    dsimp only
    rw [if_neg href]
  have hdepth : Function.update w.depth c (w.depth c - 1) c = w.depth c - 1 := Function.update_self _ _ _
  rw [hfinish]
  constructor
  · constructor
    · exact hheld.failed
    · exact hheld.nodup
  · exact hheld.current_thread
  · dsimp only
    rw [hdepth, hheld.ref]
    omega
  · dsimp only
    rw [hdepth]
    omega
  · exact hheld.sleep_session
  · exact hheld.holder
  · exact hheld.wakeup_queue
  · exact fun s hne => depth_update_of_ne hne (hheld.depth s hne) _
  · exact hheld.called

/-! ### Runs -/

theorem Good.step {l : Label τ} (hgood : Good w) (hstep : step w l = some w') :
  Good w'
  := by
  cases l with
  | call t =>
      unfold ThreadQueue.step at hstep
      dsimp only at hstep
      split_ifs at hstep with hawake
      obtain rfl := Option.some.inj hstep
      have hawake : w.sleep_session t = false := eq_false_of_ne_true hawake
      cases hgood with
      | free hfree => exact .held t (hfree.call t)
      | held c hheld =>
          rcases eq_or_ne t c with rfl | hne
          · exact .held t hheld.call_again
          · exact .held c (hheld.call hne hawake)
      | passed c hpassed => exact .passed c (hpassed.call hawake)
  | finish t ok =>
      unfold ThreadQueue.step at hstep
      dsimp only at hstep
      split_ifs at hstep with hbusy
      obtain rfl := Option.some.inj hstep
      rw [not_or] at hbusy
      cases hgood with
      | free hfree => exact absurd (hfree.depth t) hbusy.1
      | passed c hpassed => exact absurd (hpassed.depth t) hbusy.1
      | held c hheld =>
          rcases eq_or_ne t c with rfl | hne
          · rcases eq_or_ne (w.depth t) 1 with hlast | hmore
            · cases hqueue : w.queue.thread_queue with
              | nil => exact .free (hheld.release hlast hqueue ok)
              | cons next rest => exact .passed next (hheld.pass hlast hqueue ok).1
            · exact .held t (hheld.finish hmore ok)
          · exact absurd (hheld.depth t hne) hbusy.1
  | resume t =>
      unfold ThreadQueue.step at hstep
      dsimp only at hstep
      split_ifs at hstep with hwoken
      obtain rfl := Option.some.inj hstep
      cases hgood with
      | free hfree =>
          rw [hfree.wakeup_queue] at hwoken
          exact absurd hwoken.1 List.not_mem_nil
      | held c hheld =>
          rw [hheld.wakeup_queue] at hwoken
          exact absurd hwoken.1 List.not_mem_nil
      | passed c hpassed =>
          rw [hpassed.wakeup_queue] at hwoken
          obtain rfl := List.mem_singleton.mp hwoken.1
          exact .held t hpassed.resume

theorem good_of_reachable (hreach : (machine τ).Reachable w) :
  Good w
  := by
  apply Machine.invariant _ _ hreach
  · intro w hstarted
    apply Good.free
    constructor
    · constructor
      · exact hstarted.failed
      · rw [hstarted.thread_queue]
        exact List.nodup_nil
    · exact hstarted.current_thread
    · exact hstarted.ref
    · exact hstarted.thread_queue
    · exact hstarted.sleep_session
    · exact hstarted.wakeup_queue
    · exact hstarted.depth
    · rw [hstarted.logs.1, hstarted.logs.2]
  · intro w l w' hgood _ hstep
    exact hgood.step hstep

/-- One coroutine at most is inside, they enter in the order in which they have called, and the assertion has
held; a coroutine that is inside can call again and is then inside once more, and as its last function ends,
one way or the other, the lock goes to the first that waits, which will be resumed. -/
structure Fair (w : World τ) : Prop where
  exclusive : ∀ t s, 0 < w.depth t → 0 < w.depth s → t = s
  order : w.entered <+: w.called
  asserted : w.failed = false
  reentrant : ∀ t, 0 < w.depth t → ∃ w', step w (.call t) = some w' ∧ w'.depth t = w.depth t + 1 ∧
    w'.sleep_session t = false
  released : ∀ t ok, w.depth t = 1 → ∃ w', step w (.finish t ok) = some w' ∧ w'.depth t = 0 ∧
    w'.queue.current_thread = w.queue.thread_queue.head? ∧
    w'.queue.thread_queue = w.queue.thread_queue.tail ∧
    ∀ s, w.queue.thread_queue.head? = some s → ∃ w'', step w' (.resume s) = some w'' ∧ w''.depth s = 1

omit [DecidableEq τ] in
/-- A coroutine that is inside holds the lock. -/
theorem Good.held_of_depth (hgood : Good w) (ht : 0 < w.depth t) :
  Held w t
  := by
  cases hgood with
  | free hfree => exact absurd (hfree.depth t) (Nat.ne_of_gt ht)
  | passed c hpassed => exact absurd (hpassed.depth t) (Nat.ne_of_gt ht)
  | held c hheld =>
      rcases eq_or_ne t c with rfl | hne
      · exact hheld
      · exact absurd (hheld.depth t hne) (Nat.ne_of_gt ht)

omit [DecidableEq τ] in
/-- A coroutine that is inside does not wait. -/
theorem Held.awake (hheld : Held w c) :
  w.sleep_session c = false
  := eq_false_of_ne_true fun hsleep => hheld.holder ((hheld.sleep_session c).mp hsleep)

theorem Held.step_call (hheld : Held w c) :
  step w (.call c) = some (ThreadQueue.call w c)
  := if_neg (ne_true_of_eq_false hheld.awake)

theorem Held.step_finish (hheld : Held w c) (ok : Bool) :
  step w (.finish c ok) = some (ThreadQueue.finish w c ok).1
  := if_neg (not_or.mpr ⟨Nat.ne_of_gt hheld.inside, ne_true_of_eq_false hheld.awake⟩)

/-- The coroutine that the lock has been passed to can be resumed, and enters. -/
theorem Passed.step_resume (hpassed : Passed w c) :
  ∃ w', step w (.resume c) = some w' ∧ w'.depth c = 1
  := by
  have hwoken : c ∈ w.wakeup_queue ∧ w.sleep_session c = true := by
    rw [hpassed.wakeup_queue]
    exact ⟨List.mem_singleton_self c, (hpassed.sleep_session c).mpr (.inl rfl)⟩
  refine ⟨_, if_pos hwoken, ?_⟩
  have hheld := hpassed.resume
  have hdepth : (ThreadQueue.resume w c).depth c = w.depth c + 1 := by
    unfold ThreadQueue.resume
    dsimp only
    rw [if_pos hpassed.ref]
    exact Function.update_self _ _ _
  rw [hdepth, hpassed.depth c]

/-- The queue is a lock: coroutines enter one at a time and in order, may enter again, and leave by any way. -/
theorem queue_fair (hreach : (machine τ).Reachable w) :
  Fair w
  := by
  have hgood := good_of_reachable hreach
  constructor
  · intro t s ht hs
    have hheld := hgood.held_of_depth ht
    by_contra hne
    exact absurd (hheld.depth s (Ne.symm hne)) (Nat.ne_of_gt hs)
  · cases hgood with
    | free hfree =>
        use []
        rw [hfree.called, List.append_nil]
    | held c hheld =>
        rw [hheld.called]
        exact List.prefix_append _ _
    | passed c hpassed =>
        rw [hpassed.called]
        exact List.prefix_append _ _
  · cases hgood with
    | free hfree => exact hfree.failed
    | held c hheld => exact hheld.failed
    | passed c hpassed => exact hpassed.failed
  · intro t ht
    have hheld := hgood.held_of_depth ht
    refine ⟨_, hheld.step_call, ?_, hheld.call_again.awake⟩
    have hcall : (ThreadQueue.call w t).depth = Function.update w.depth t (w.depth t + 1) := by
      unfold ThreadQueue.call
      dsimp only
      rw [if_neg fun hand => hand.2 hheld.current_thread]
      rfl
    rw [hcall, Function.update_self]
  · intro t ok hlast
    have hheld := hgood.held_of_depth (hlast ▸ Nat.one_pos)
    refine ⟨_, hheld.step_finish ok, ?_⟩
    cases hqueue : w.queue.thread_queue with
    | nil =>
        have hfree := hheld.release hlast hqueue ok
        exact ⟨hfree.depth t, hfree.current_thread, hfree.thread_queue, nofun⟩
    | cons next rest =>
        obtain ⟨hpassed, hrest⟩ := hheld.pass hlast hqueue ok
        refine ⟨hpassed.depth t, hpassed.current_thread, hrest, ?_⟩
        intro s hs
        obtain rfl := Option.some.inj hs
        exact hpassed.step_resume

/-- The coroutine 1 is inside a function it has called from inside another, and the coroutine 2 waits. -/
def busy : World ℕ where
  queue := ⟨some 1, 2, [2]⟩
  sleep_session := Function.update (fun _ => false) 2 true
  wakeup_queue := []
  depth := Function.update (Function.update (fun _ => 0) 1 1) 1 2
  failed := false
  called := [1, 2]
  entered := [1]

theorem queue_fair_busy :
  Fair busy
  := by
  have hstarted : (machine ℕ).Reachable ⟨⟨none, 0, []⟩, fun _ => false, [], fun _ => 0, false, [], []⟩ := by
    apply Machine.Reaches.init
    exact ⟨rfl, rfl, rfl, fun _ => rfl, rfl, fun _ => rfl, rfl, ⟨rfl, rfl⟩⟩
  have hfirst : (machine ℕ).Reachable ⟨⟨some 1, 1, []⟩, fun _ => false, [],
      Function.update (fun _ => 0) 1 1, false, [1], [1]⟩ :=
    .step (l := .call 1) hstarted trivial rfl
  have hsecond : (machine ℕ).Reachable ⟨⟨some 1, 1, [2]⟩, Function.update (fun _ => false) 2 true, [],
      Function.update (fun _ => 0) 1 1, false, [1, 2], [1]⟩ :=
    .step (l := .call 2) hfirst trivial rfl
  exact queue_fair (.step (l := .call 1) hsecond trivial rfl)

end ThreadQueue

end Skynet
