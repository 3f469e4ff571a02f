import FWServer.Kernel.RingBuffer
import Mathlib.Data.Int.Notation

/-!
# Message queues

`skynet-src/skynet_mq.c`: the queue of one service, a ring buffer that is doubled when it is full, with the
flags that say whether the queue is in the global queue or being dispatched, and whether its service is
gone.  The counters behind the warning about an overload are left out.
-/

namespace Skynet

/-- `struct skynet_message`; the type of a message is kept beside its size in the source. -/
structure Message where
  source : ℕ
  session : ℤ
  type : ℕ
  data : List UInt8
  deriving DecidableEq, Inhabited

/-- `PTYPE_ERROR` -/
def PTYPE_ERROR : ℕ := 7

/-- `PTYPE_TEXT` -/
def PTYPE_TEXT : ℕ := 0

/-- `PTYPE_TAG_DONTCOPY` -/
def PTYPE_TAG_DONTCOPY : ℕ := 0x10000

/-- The arguments of `skynet_send`. -/
structure Send where
  source : ℕ
  destination : ℕ
  type : ℕ
  session : ℤ
  data : List UInt8
  deriving DecidableEq

/-- `struct message_queue` -/
structure MessageQueue where
  handle : ℕ
  release : Bool
  inGlobal : Bool
  queue : RingBuffer Message

namespace MessageQueue

/-- `DEFAULT_QUEUE_SIZE` -/
def DEFAULT_QUEUE_SIZE : ℕ := 64

/-- `skynet_mq_create`.  The queue counts as being in the global queue until the service has been
initialised. -/
def create (handle : ℕ) : MessageQueue where
  handle := handle
  release := false
  inGlobal := true
  queue := .empty DEFAULT_QUEUE_SIZE (by decide) fun _ => default

/-- `skynet_mq_length` -/
def length (q : MessageQueue) : ℕ :=
  q.queue.size

/-- `skynet_mq_pop`.  A queue that is found empty is not in the global queue any more. -/
def pop (q : MessageQueue) : Option Message × MessageQueue :=
  match q.queue.pop with
  | some (message, queue) => (some message, { q with queue := queue })
  | none => (none, { q with inGlobal := false })

/-- `skynet_mq_push`, with `expand_queue`; whether the queue is to be put in the global queue is told by
`inGlobal` before. -/
def push (q : MessageQueue) (message : Message) : MessageQueue :=
  { q with
    queue := q.queue.push message (q.queue.cap * 2) (Nat.lt_mul_iff_one_lt_right
      (Nat.zero_lt_of_lt q.queue.head_lt) |>.mpr Nat.one_lt_two)
    inGlobal := true }

/-- The messages of a queue, oldest first. -/
def messages (q : MessageQueue) : List Message :=
  q.queue.contents

@[simp]
theorem messages_create (handle : ℕ) :
  (create handle).messages = []
  := rfl

@[simp]
theorem messages_push (q : MessageQueue) (message : Message) :
  (q.push message).messages = q.messages ++ [message]
  := RingBuffer.contents_push _ _ _ _

@[simp]
theorem handle_push (q : MessageQueue) (message : Message) :
  (q.push message).handle = q.handle
  := rfl

@[simp]
theorem release_push (q : MessageQueue) (message : Message) :
  (q.push message).release = q.release
  := rfl

@[simp]
theorem inGlobal_push (q : MessageQueue) (message : Message) :
  (q.push message).inGlobal = true
  := rfl

/-- A queue is empty, or its first message is taken out. -/
theorem pop_cases (q : MessageQueue) :
  q.messages = [] ∧ q.pop = (none, { q with inGlobal := false }) ∨
  ∃ message queue, q.messages = message :: ({ q with queue := queue } : MessageQueue).messages ∧
    q.pop = (some message, { q with queue := queue })
  := by
  unfold pop messages
  cases hpop : q.queue.pop with
  | none => exact .inl ⟨RingBuffer.pop_eq_none.mp hpop, rfl⟩
  | some x =>
      obtain ⟨message, queue⟩ := x
      exact .inr ⟨message, queue, RingBuffer.contents_pop hpop, rfl⟩

end MessageQueue

end Skynet
