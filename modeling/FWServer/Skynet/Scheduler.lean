import FWServer.Kernel.Programs
import FWServer.Skynet.Handles
import FWServer.Skynet.MessageQueue

/-!
# The scheduler

`skynet-src/skynet_mq.c` and `skynet-src/skynet_server.c`: services are created and retired, messages are pushed
to their queues, and workers take the queues from the global queue and dispatch their messages.  Each of these
functions is run by any number of threads; every body that is under a lock, and every change of a count of
references, is one instruction.

A context and its queue have the same number.  What the instance of a service does when it is initialised or
when it is handed a message is left to the other threads: they create and retire services and push messages at
any time.  A message of a service without a callback is freed, which is not told from its being dispatched.
-/

namespace Skynet

namespace Scheduler

/-- The state that the threads share; `frees` counts how often a queue has been freed, `dangling` tells whether a
queue has been touched after that, and `aborted` whether an assertion has failed.  The messages of a queue that
have been accepted, dispatched to a context and dropped with a report are kept, oldest first. -/
structure Node where
  registry : Registry
  ref : ℕ → ℤ
  init : ℕ → Bool
  queue : ℕ → MessageQueue
  global : List ℕ
  frees : ℕ → ℕ
  dangling : Bool
  aborted : Bool
  accepted : ℕ → List Message
  dispatched : ℕ → List (ℕ × Message)
  dropped : ℕ → List (Message × Send)

/-- The instructions.  A worker is known by its weight; `q` is the queue that it has, and `ctx` the context that it
has grabbed. -/
inductive Instr where
  /-- `skynet_context_new`: the context is put at `ctx`, and registered -/
  | contextNew (ctx : ℕ)
  /-- `ctx->handle = …; queue = ctx->queue = skynet_mq_create(ctx->handle)` -/
  | mqCreate (ctx : ℕ)
  /-- `skynet_module_instance_init` -/
  | instanceInit (ctx : ℕ)
  /-- `ret = skynet_context_release(ctx); if (ret) ctx->init = true` -/
  | launched (ctx : ℕ)
  /-- `skynet_globalmq_push(queue)` -/
  | launchPush (ctx : ℕ)
  /-- `skynet_context_release(ctx)`, when `ctx` has not been initialised -/
  | failRelease (ctx : ℕ)
  /-- `skynet_handle_retire(handle)`, when `ctx` has not been initialised -/
  | failRetire (ctx handle : ℕ)
  /-- `skynet_mq_release(queue, …)`, when `ctx` has not been initialised -/
  | failDrop (ctx : ℕ)
  /-- `skynet_context_release` -/
  | contextRelease (ctx : ℕ)
  /-- `skynet_mq_mark_release`, in `delete_context` -/
  | markRelease (q : ℕ)
  /-- `skynet_handle_retire` -/
  | handleRetire (handle : ℕ)
  /-- `skynet_context_push` -/
  | contextPush (destination : ℕ) (message : Message)
  /-- `skynet_mq_push(ctx->queue, message); skynet_context_release(ctx)` -/
  | mqPush (ctx : ℕ) (message : Message)
  /-- A function that grabs a context, and releases it when it is done, such as `skynet_context_endless`. -/
  | contextUse (handle : ℕ)
  /-- A turn of the loop of `_drop_queue` -/
  | drop (q : ℕ)
  /-- `drop_message`, for a message of `q`, and the rest of the loop -/
  | report (q : ℕ) (message : Message)
  /-- `_release` -/
  | free (q : ℕ)
  /-- `q = skynet_globalmq_pop()`, by a worker that has no queue -/
  | worker (weight : ℤ)
  /-- `ctx = skynet_handle_grab(handle)`, with the handle of the queue -/
  | handleGrab (weight : ℤ) (q : ℕ)
  /-- `skynet_mq_release(q, …)`, by a worker that has found no context -/
  | mqRelease (q : ℕ)
  /-- `skynet_mq_pop(q, &msg)`, for the turn `i` of `n` -/
  | mqPop (weight : ℤ) (q ctx i n : ℕ)
  /-- `n = skynet_mq_length(q); n >>= weight` -/
  | mqLength (weight : ℤ) (q ctx : ℕ) (message : Message)
  /-- `dispatch_message(ctx, &msg)` -/
  | dispatchMessage (weight : ℤ) (q ctx : ℕ) (message : Message) (i n : ℕ)
  /-- `nq = skynet_globalmq_pop()`, after the loop -/
  | nextQueue (weight : ℤ) (q ctx : ℕ)
  /-- `skynet_globalmq_push(q)`, after the loop, when the worker has been given `nq` -/
  | pushBack (weight : ℤ) (q ctx nq : ℕ)
  deriving DecidableEq

namespace Node

/-! ### Queues -/

/-- `assert` -/
def assert (w : Node) (b : Bool) : Node :=
  { w with aborted := w.aborted || !b }

/-- A queue is touched. -/
def touch (w : Node) (q : ℕ) : Node :=
  { w with dangling := w.dangling || decide (w.frees q ≠ 0) }

/-- `skynet_globalmq_push`; a queue that is in the list has a successor unless it is the last. -/
def globalmqPush (w : Node) (q : ℕ) : Node :=
  let w := (w.touch q).assert (!w.global.dropLast.contains q)
  let w := match w.global.getLast? with
    | some tail => w.touch tail
    | none => w
  { w with global := w.global ++ [q] }

/-- `skynet_globalmq_pop` -/
def globalmqPop (w : Node) : Option ℕ × Node :=
  match w.global with
  | [] => (none, w)
  | q :: global => (some q, { w.touch q with global := global })

/-- `skynet_mq_push` -/
def mqPush (w : Node) (q : ℕ) (message : Message) : Node :=
  let w' : Node :=
    { w.touch q with
      queue := Function.update w.queue q ((w.queue q).push message)
      accepted := Function.update w.accepted q (w.accepted q ++ [message]) }
  if (w.queue q).inGlobal then w' else w'.globalmqPush q

/-- `skynet_mq_pop` -/
def mqPop (w : Node) (q : ℕ) : Option Message × Node :=
  let (message, queue) := (w.queue q).pop
  (message, { w.touch q with queue := Function.update w.queue q queue })

/-- `skynet_mq_mark_release` -/
def mqMarkRelease (w : Node) (q : ℕ) : Node :=
  let w' : Node :=
    { (w.touch q).assert (!(w.queue q).release) with
      queue := Function.update w.queue q { w.queue q with release := true } }
  if (w.queue q).inGlobal then w' else w'.globalmqPush q

/-- `skynet_mq_release`, up to `_drop_queue` -/
def mqRelease (w : Node) (q : ℕ) : Node × List Instr :=
  if (w.queue q).release then (w.touch q, [.drop q]) else ((w.touch q).globalmqPush q, [])

/-- `_release` -/
def release (w : Node) (q : ℕ) : Node :=
  { (w.touch q).assert (!w.global.dropLast.contains q) with
    frees := Function.update w.frees q (w.frees q + 1) }

/-! ### Contexts -/

/-- `skynet_context_release`, up to `skynet_mq_mark_release` in `delete_context` -/
def contextRelease (w : Node) (ctx : ℕ) : Node × List Instr :=
  ({ w with ref := Function.update w.ref ctx (w.ref ctx - 1) },
    if w.ref ctx - 1 = 0 then [.markRelease ctx] else [])

/-- `ret = skynet_context_release(ctx); if (ret) ctx->init = true`, and what follows -/
def launched (w : Node) (ctx : ℕ) : Node × List Instr :=
  match w.contextRelease ctx with
  | (w, []) => ({ w with init := Function.update w.init ctx true }, [.launchPush ctx])
  | (w, deleted) => (w, deleted ++ [.launchPush ctx])

/-- `skynet_handle_grab` -/
def handleGrab (w : Node) (handle : ℕ) : Option ℕ × Node :=
  match w.registry.find handle with
  | none => (none, w)
  | some ctx => (some ctx, { w with ref := Function.update w.ref ctx (w.ref ctx + 1) })

/-- `skynet_handle_retire` -/
def handleRetire (w : Node) (handle : ℕ) : Node × List Instr :=
  ({ w with registry := w.registry.retire handle },
    match w.registry.find handle with
    | none => []
    | some ctx => [.contextRelease ctx])

/-- `skynet_context_push` -/
def contextPush (w : Node) (destination : ℕ) (message : Message) : Node × List Instr :=
  match w.handleGrab destination with
  | (none, w) => (w, [])
  | (some ctx, w) => (w, [.mqPush ctx message])

/-- `skynet_harbor_message_isremote` -/
def isremote (w : Node) (handle : ℕ) : Bool :=
  let h := handle / 2 ^ HANDLE_REMOTE_SHIFT * 2 ^ HANDLE_REMOTE_SHIFT
  h ≠ w.registry.storage.harbor ∧ h ≠ 0

/-- What `drop_message` sends. -/
def errorTo (source : ℕ) (message : Message) : Send :=
  ⟨source, message.source, PTYPE_ERROR, 0, []⟩

/-- `skynet_send`, of a message that is not too large; a message for another node is left to the harbor. -/
def send (w : Node) (x : Send) : Node × List Instr :=
  if x.destination = 0 then (w, [])
  else if w.isremote x.destination then (w, [])
  else w.contextPush x.destination ⟨x.source, x.session, x.type, x.data⟩

/-- `drop_message` -/
def dropMessage (w : Node) (q : ℕ) (message : Message) : Node × List Instr :=
  let source := (w.queue q).handle
  let x := errorTo source message
  let w := w.assert (source ≠ 0)
  { w with dropped := Function.update w.dropped q (w.dropped q ++ [(message, x)]) }.send x

/-! ### The threads -/

/-- What an instruction does, and what is to be executed next; `ok` is whether the instance of a service is
initialised with success. -/
def perform (w : Node) (ok : Bool) : Instr → Option (Node × List Instr)
  | .contextNew ctx =>
      if w.registry.life ctx = .unborn then
        (w.registry.register ctx).map fun registry =>
          ({ w with
            registry := registry
            ref := Function.update w.ref ctx 2
            init := Function.update w.init ctx false }, [.mqCreate ctx])
      else none
  | .mqCreate ctx =>
      match w.registry.life ctx with
      | .registered handle =>
          some ({ w with
            registry := w.registry.assign ctx handle
            queue := Function.update w.queue ctx (.create handle) }, [.instanceInit ctx])
      | _ => none
  | .instanceInit ctx => some (w, [if ok then .launched ctx else .failRelease ctx])
  | .launched ctx => some (w.launched ctx)
  | .launchPush ctx => some (w.globalmqPush ctx, [])
  | .failRelease ctx =>
      let handle := w.registry.handle ctx
      let (w, deleted) := w.contextRelease ctx
      some (w, deleted ++ [.failRetire ctx handle])
  | .failRetire ctx handle =>
      let (w, found) := w.handleRetire handle
      some (w, found ++ [.failDrop ctx])
  | .failDrop ctx => some (w.mqRelease ctx)
  | .contextRelease ctx => some (w.contextRelease ctx)
  | .markRelease q => some (w.mqMarkRelease q, [])
  | .handleRetire handle => some (w.handleRetire handle)
  | .contextPush destination message => some (w.contextPush destination message)
  | .mqPush ctx message => some (w.mqPush ctx message, [.contextRelease ctx])
  | .contextUse handle =>
      match w.handleGrab handle with
      | (none, w) => some (w, [])
      | (some ctx, w) => some (w, [.contextRelease ctx])
  | .drop q =>
      match w.mqPop q with
      | (none, w) => some (w, [.free q])
      | (some message, w) => some (w, [.report q message])
  | .report q message =>
      let (w, sent) := w.dropMessage q message
      some (w, sent ++ [.drop q])
  | .free q => some (w.release q, [])
  | .worker weight =>
      match w.globalmqPop with
      | (none, w) => some (w, [.worker weight])
      | (some q, w) => some (w, [.handleGrab weight q])
  | .handleGrab weight q =>
      match (w.touch q).handleGrab (w.queue q).handle with
      | (none, w) => some (w, [.mqRelease q, .worker weight])
      | (some ctx, w) => some (w, [.mqPop weight q ctx 0 1])
  | .mqRelease q => some (w.mqRelease q)
  | .mqPop weight q ctx i n =>
      match w.mqPop q with
      | (none, w) => some (w, [.contextRelease ctx, .worker weight])
      | (some message, w) =>
          if i = 0 ∧ 0 ≤ weight then some (w, [.mqLength weight q ctx message])
          else some (w, [.dispatchMessage weight q ctx message i n])
  | .mqLength weight q ctx message =>
      some (w.touch q, [.dispatchMessage weight q ctx message 0 ((w.queue q).length >>> weight.toNat)])
  | .dispatchMessage weight q ctx message i n =>
      let w := w.assert (w.init ctx)
      some ({ w with dispatched := Function.update w.dispatched q (w.dispatched q ++ [(ctx, message)]) },
        [if i + 1 < n then .mqPop weight q ctx (i + 1) n else .nextQueue weight q ctx])
  | .nextQueue weight q ctx =>
      match (w.assert (q = ctx)).globalmqPop with
      | (none, w) => some (w, [.contextRelease ctx, .handleGrab weight q])
      | (some nq, w) => some (w, [.pushBack weight q ctx nq])
  | .pushBack weight q ctx nq =>
      some (w.globalmqPush q, [.contextRelease ctx, .handleGrab weight nq])

/-- An instruction is executed unless an assertion has failed. -/
def execute (w : Node) (ok : Bool) (i : Instr) : Option (Node × List Instr) :=
  if w.aborted ∨ w.registry.aborted then none else w.perform ok i

/-- The node at its start. -/
def start (harbor : ℕ) : Node where
  registry := .start harbor
  ref _ := 0
  init _ := false
  queue _ := .create 0
  global := []
  frees _ := 0
  dangling := false
  aborted := false
  accepted _ := []
  dispatched _ := []
  dropped _ := []

end Node

/-- What a thread is started with.  A handle that is used is not 0, and one that messages are sent to is known
only once its queue has been created. -/
def Instr.starts : Instr → Bool
  | .contextNew _ => true
  | .handleRetire handle => handle ≠ 0
  | .contextPush destination _ => destination ≠ 0
  | .contextUse handle => handle ≠ 0
  | .worker _ => true
  | _ => false

/-- The programs of the threads. -/
def programs : Programs Node Instr Bool where
  starts := Instr.starts
  execute := Node.execute

/-- All interleavings. -/
def machine : Machine (Programs.State Node Instr) (Programs.Step Instr Bool) :=
  programs.machine fun w => ∃ harbor, w = .start harbor

end Scheduler

end Skynet
