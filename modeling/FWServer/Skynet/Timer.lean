import FWServer.Kernel.Shelves
import FWServer.Skynet.MessageQueue
import Mathlib.Algebra.Group.Nat.Defs

/-!
# The timer

`skynet-src/skynet_timer.c`: a timing wheel.  A node that expires within the current round of 256 ticks is in
a list of its own tick; one that expires later is in a list of one of four levels, each of which tells 64
rounds of the level below apart.  When a round begins, the list for it is taken down and its nodes are put
where they belong now.

The wall clock, which says how many ticks are due, is left out; so is the lock, which is held during each of
the steps.
-/

namespace Skynet

/-- `struct timer_event` -/
structure TimerEvent where
  handle : ℕ
  session : ℤ
  deriving DecidableEq

/-- `struct timer_node`, followed by what is to be done. -/
structure TimerNode where
  expire : ℕ
  event : TimerEvent
  deriving DecidableEq

/-- The times `skynet_timeout` passes on to `timer_add`: the positive values of an `int`. -/
def Delay : Type :=
  { time : ℕ // 0 < time ∧ time < 2 ^ 31 }

/-- A list of the wheel: `near[idx]` or `t[i][idx]`. -/
inductive Slot where
  | near (idx : ℕ)
  | t (i idx : ℕ)
  deriving DecidableEq

/-- The level of a list, the lists of single ticks being the lowest. -/
def Slot.rank : Slot → ℕ
  | .near _ => 0
  | .t i _ => i + 1

/-- `struct timer`; `time` is a 32-bit number. -/
structure Timer where
  list : Slot → List TimerNode
  time : ℕ

/-- `PTYPE_RESPONSE` -/
def PTYPE_RESPONSE : ℕ := 1

namespace Timer

def TIME_NEAR_SHIFT : ℕ := 8

def TIME_NEAR : ℕ := 1 <<< TIME_NEAR_SHIFT

def TIME_LEVEL_SHIFT : ℕ := 6

def TIME_LEVEL : ℕ := 1 <<< TIME_LEVEL_SHIFT

def TIME_NEAR_MASK : ℕ := TIME_NEAR - 1

def TIME_LEVEL_MASK : ℕ := TIME_LEVEL - 1

/-- A number as the code keeps it in a `uint32_t`. -/
def uint32 (n : ℕ) : ℕ :=
  n % 2 ^ 32

/-- The level at which `add_node` puts a node: the first, counted from `i`, whose rounds do not tell the times
apart, of those below 3. -/
def level (time currentTime mask : ℕ) : ℕ → ℕ → ℕ
  | 0, i => i
  | n + 1, i =>
      if time ||| (mask - 1) = currentTime ||| (mask - 1) then i
      else level time currentTime (mask <<< TIME_LEVEL_SHIFT) n (i + 1)

/-- The list `add_node` puts a node in. -/
def slotOf (currentTime time : ℕ) : Slot :=
  if time ||| TIME_NEAR_MASK = currentTime ||| TIME_NEAR_MASK then
    .near (time &&& TIME_NEAR_MASK)
  else
    let i := level time currentTime (TIME_NEAR <<< TIME_LEVEL_SHIFT) 3 0
    .t i ((time >>> (TIME_NEAR_SHIFT + i * TIME_LEVEL_SHIFT)) &&& TIME_LEVEL_MASK)

/-- `add_node`, with `link` -/
def addNode (T : Timer) (node : TimerNode) : Timer :=
  { T with list := Shelved.put T.list (slotOf T.time node.expire) node }

/-- `timer_add` -/
def add (T : Timer) (event : TimerEvent) (time : Delay) : Timer :=
  T.addNode ⟨uint32 (time.val + T.time), event⟩

/-- `link_clear` -/
def linkClear (T : Timer) (slot : Slot) : Timer :=
  { T with list := Function.update T.list slot [] }

/-- `move_list` -/
def moveList (T : Timer) (i idx : ℕ) : Timer :=
  (T.list (.t i idx)).foldl addNode (T.linkClear (.t i idx))

/-- The list that `timer_shift` moves when the time has become `ct`, for `ct` other than 0: the loop over the
levels from `i` on.  At level 4 the mask has been shifted out of its 32 bits, and the loop ends. -/
def shifted (ct time mask : ℕ) : ℕ → ℕ → Option (ℕ × ℕ)
  | 0, _ => none
  | n + 1, i =>
      if ct &&& (mask - 1) = 0 then
        let idx := time &&& TIME_LEVEL_MASK
        if idx ≠ 0 then some (i, idx)
        else shifted ct (time >>> TIME_LEVEL_SHIFT) (mask <<< TIME_LEVEL_SHIFT) n (i + 1)
      else none

/-- `timer_shift` -/
def shift (T : Timer) : Timer :=
  let ct := uint32 (T.time + 1)
  let T := { T with time := ct }
  if ct = 0 then
    T.moveList 3 0
  else
    match shifted ct (ct >>> TIME_NEAR_SHIFT) TIME_NEAR 4 0 with
    | some (i, idx) => T.moveList i idx
    | none => T

/-- `timer_execute`: the nodes handed to `dispatch_list`, and the timer after that.  The loop takes the list
once, since nothing is added to it meanwhile. -/
def execute (T : Timer) : List TimerNode × Timer :=
  let idx := T.time &&& TIME_NEAR_MASK
  (T.list (.near idx), T.linkClear (.near idx))

/-- `dispatch_list`: the messages pushed, each with the handle of the service. -/
def dispatchList (nodes : List TimerNode) : List (ℕ × Message) :=
  nodes.map fun node => (node.event.handle,
    { source := 0, session := node.event.session, type := PTYPE_RESPONSE, data := [] })

/-- `timer_update`: the nodes handed to `dispatch_list`, and the timer after that. -/
def update (T : Timer) : List TimerNode × Timer :=
  let (early, T) := T.execute
  let (nodes, T) := T.shift.execute
  (early ++ nodes, T)

/-- `timer_create_timer` -/
def create : Timer where
  list _ := []
  time := 0

end Timer

end Skynet
