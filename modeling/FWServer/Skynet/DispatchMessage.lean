import FWServer.Kernel.Machine
import Mathlib.Algebra.Group.Int.Defs
import Mathlib.Data.Int.Notation
import Mathlib.Data.Nat.Notation
import Mathlib.Logic.Function.Basic

/-!
# The coroutines of a service

`lualib/skynet.lua`: `dispatch_message` resumes the coroutine that a message is for, or a new one; `suspend` does
what a coroutine asks for with the command it yields, and at its end resumes a coroutine that has been woken and
one whose call has failed, which it does again at the end of theirs.

What coroutines do is left open: they take steps in any order.  Coroutines, sessions and services are numbers.
A coroutine waits by `skynet.wait` for itself.  The table `sleep_session` has the session of a coroutine exactly
while that has yielded `SLEEP`: the functions that yield it take it out when they go on, as `yield_call` does with
`watching_session`; so both are done where a coroutine is resumed.  Waits and calls are numbered, and an entry of
`wakeup_queue` has the wait that was woken.

A call is made to an address, a number or a string, and `watching_session` has the address as it was passed; the
source of an error is a number.
-/

namespace Skynet

namespace DispatchMessage

/-- A value of `session_id_coroutine`. -/
inductive Entry where
  | nil
  | co (co : ℕ)
  | BREAK
  deriving DecidableEq

/-- Where a coroutine is: it has not been created, or has ended; it runs; it cannot be resumed any more; it has
been forked, or is to be started by a timeout; it has yielded `SLEEP`, in `skynet.wait` or `skynet.sleep`, or
`CALL`. -/
inductive Point where
  | free
  | running
  | stuck
  | forked
  | timed (session : ℕ)
  | sleeping (session wait : ℕ) (in_wait : Bool)
  | calling (session call : ℕ)
  deriving DecidableEq

/-- The session a coroutine waits for. -/
def Point.session : Point → Option ℕ
  | .timed session => some session
  | .sleeping session _ _ => some session
  | .calling session _ => some session
  | _ => none

/-- The wait a coroutine is in. -/
def Point.waits : Point → List ℕ
  | .sleeping _ wait _ => [wait]
  | _ => []

/-- The call a coroutine is in. -/
def Point.calls : Point → List ℕ
  | .calling _ call => [call]
  | _ => []

/-- The address that a call is made to.  A string comes with the service that its name, or the number in it, stands
for when the message is sent. -/
inductive Address where
  | number (n : ℤ)
  | string (name : String) (service : ℕ)
  deriving DecidableEq

/-- The service that the message is sent to: `send_message` takes a number modulo `2 ^ 32`. -/
def Address.service : Address → ℕ
  | .number n => (n % 2 ^ 32).toNat
  | .string _ service => service

/-- `srv == error_source`: a string equals no number. -/
def Address.equals (error_source : ℕ) : Address → Bool
  | .number n => n = error_source
  | .string _ _ => false

/-- What runs: nothing, between two messages; the loop over `fork_queue`; a coroutine; or the end of `suspend`.
`frames` calls of `dispatch_wakeup` are to return. -/
inductive Control where
  | idle
  | loop
  | running (co frames : ℕ)
  | suspend (frames : ℕ)
  deriving DecidableEq

/-- The tables of the service.  `woken` are the waits for which `skynet.wakeup` has returned true, `resumed` those
that have ended, `broken` those that `dispatch_wakeup` has ended; `doomed` are the calls pending on a service, by
whatever address, when it was reported dead, and `failed` those that `dispatch_error_queue` has ended. -/
structure State where
  control : Control
  point : ℕ → Point
  session_id_coroutine : ℕ → Entry
  session_coroutine_id : ℕ → Option ℕ
  session_coroutine_address : ℕ → Option ℕ
  session_response : ℕ → Bool
  wakeup_queue : List (ℕ × ℕ)
  watching_service : ℕ → Option ℕ
  watching_session : ℕ → Option (Address × ℕ)
  dead_service : ℕ → Bool
  error_queue : List ℕ
  fork_queue : List ℕ
  waits : ℕ
  woken : List ℕ
  resumed : List ℕ
  broken : List ℕ
  calls : ℕ
  doomed : List ℕ
  failed : List ℕ

/-! ### Resuming -/

/-- What `skynet.wait` does with its session when it goes on. -/
def clearWait : Point → (ℕ → Entry) → ℕ → Entry
  | .sleeping session _ true, table => Function.update table session .nil
  | _, table => table

/-- What `yield_call` does with its session when it goes on. -/
def clearCall : Point → (ℕ → Option (Address × ℕ)) → ℕ → Option (Address × ℕ)
  | .calling session _, table => Function.update table session none
  | _, table => table

/-- `coroutine_resume` -/
def State.resume (st : State) (co frames : ℕ) : State :=
  { st with
    control := .running co frames
    point := Function.update st.point co .running
    session_id_coroutine := clearWait (st.point co) st.session_id_coroutine
    watching_session := clearCall (st.point co) st.watching_session
    resumed := st.resumed ++ (st.point co).waits }

/-- The message has been dispatched, by a return or an error, and the loop over `fork_queue` goes on. -/
def State.ended (st : State) : State :=
  { st with control := if st.fork_queue = [] then .idle else .loop }

/-- `dispatch_error_queue`, with a session; without a coroutine, `coroutine_resume` raises. -/
def State.fail (st : State) (session : ℕ) (rest : List ℕ) (frames : ℕ) : State :=
  let co := st.session_id_coroutine session
  let st := { st with
    error_queue := rest
    session_id_coroutine := Function.update st.session_id_coroutine session .nil }
  match co with
  | .co co => { st with failed := st.failed ++ (st.point co).calls }.resume co frames
  | _ => st.ended

/-- `dispatch_error_queue` at the end of `suspend`, and at the end of those that then go on. -/
def dispatch_error_queue (st : State) : ℕ → State
  | 0 =>
      match st.error_queue with
      | [] => st.ended
      | session :: rest => st.fail session rest 0
  | frames + 1 =>
      match st.error_queue with
      | [] => dispatch_error_queue st frames
      | session :: rest => st.fail session rest (frames + 1)

/-- `dispatch_wakeup` and `dispatch_error_queue` at the end of `suspend` -/
def dispatch_wakeup (st : State) (frames : ℕ) : State :=
  match st.wakeup_queue with
  | [] => dispatch_error_queue st frames
  | (co, _) :: rest =>
      let st := { st with wakeup_queue := rest }
      match st.point co with
      | .sleeping session wait _ =>
          { st with
            session_id_coroutine := Function.update st.session_id_coroutine session .BREAK
            broken := st.broken ++ [wait] }.resume co (frames + 1)
      | _ => dispatch_error_queue st frames

/-! ### Commands -/

/-- What a coroutine yields, or that it raises an error.  `param` tells whether there is something to return. -/
inductive Command where
  | CALL (session : ℕ) (service : Address)
  | SLEEP (session : ℕ) (in_wait : Bool)
  | RETURN (param : Bool)
  | RESPONSE
  | EXIT
  | QUIT
  | nil
  | unknown
  | error
  deriving DecidableEq

/-- Whether `suspend` raises an error. -/
def Command.raises (st : State) (co : ℕ) : Command → Bool
  | .RETURN param =>
      st.session_coroutine_id co ≠ some 0 ∧
        (param = false ∨ st.session_response co ∨ st.session_coroutine_address co = none)
  | .RESPONSE =>
      st.session_response co ∨ ((st.session_coroutine_address co).bind st.watching_service) = none
  | .unknown => true
  | .error => true
  | _ => false

/-- `release_watching` -/
def release_watching (st : State) (address : ℕ) : State :=
  match st.watching_service address with
  | none => st
  | some ref =>
      { st with
        watching_service := Function.update st.watching_service address
          (if ref - 1 > 0 then some (ref - 1) else none) }

/-- What `suspend` does with the tables of messages. -/
def account (st : State) (co : ℕ) : Command → State
  | .error =>
      if st.session_coroutine_id co = none then st
      else
        { st with
          session_coroutine_id := Function.update st.session_coroutine_id co none
          session_coroutine_address := Function.update st.session_coroutine_address co none }
  | .RETURN param =>
      if st.session_coroutine_id co = some 0 ∨ param = false ∨ st.session_response co then st
      else { st with session_response := Function.update st.session_response co true }
  | .RESPONSE =>
      match st.session_coroutine_address co with
      | none => st
      | some address =>
          if st.session_response co ∨ st.watching_service address = none then st
          else
            { st with
              watching_service := Function.update st.watching_service address
                ((st.watching_service address).map (· + 1))
              session_response := Function.update st.session_response co true }
  | .EXIT =>
      match st.session_coroutine_address co with
      | none => st
      | some address =>
          let st := release_watching st address
          { st with
            session_coroutine_id := Function.update st.session_coroutine_id co none
            session_coroutine_address := Function.update st.session_coroutine_address co none
            session_response := Function.update st.session_response co false }
  | _ => st

/-- A coroutine is not resumed any more. -/
def State.stop (st : State) (co : ℕ) (point : Point) : State :=
  { st with point := Function.update st.point co point }

/-- A call of `suspend` returns before its end. -/
def State.returned (st : State) : ℕ → State
  | 0 => st.ended
  | frames + 1 => dispatch_error_queue st frames

/-- `suspend`, up to its end -/
def suspend (st : State) (co frames : ℕ) (command : Command) : State :=
  let raises := command.raises st co
  let st := account st co command
  if raises then (st.stop co .stuck).ended
  else
    match command with
    | .CALL session service =>
        { st.stop co (.calling session st.calls) with
          control := .suspend frames
          session_id_coroutine := Function.update st.session_id_coroutine session (.co co)
          watching_session := Function.update st.watching_session session (some (service, st.calls))
          calls := st.calls + 1 }
    | .SLEEP session in_wait =>
        { st.stop co (.sleeping session st.waits in_wait) with
          control := .suspend frames
          session_id_coroutine := Function.update st.session_id_coroutine session (.co co)
          waits := st.waits + 1 }
    | .EXIT => { st.stop co .free with control := .suspend frames }
    -- `skynet.exit`
    | .QUIT => { st.stop co .stuck with fork_queue := [] }.returned frames
    | .nil => (st.stop co .stuck).returned frames
    -- a reply: the coroutine goes on
    | _ => st

/-! ### Messages -/

/-- `raw_dispatch_message` of a request, up to the coroutine. -/
def State.start (st : State) (co session source : ℕ) : State :=
  { st with
    control := .running co 0
    point := Function.update st.point co .running
    watching_service := Function.update st.watching_service source
      (some (((st.watching_service source).map (· + 1)).getD 1))
    session_coroutine_id := Function.update st.session_coroutine_id co (some session)
    session_coroutine_address := Function.update st.session_coroutine_address co (some source) }

/-- The session of a call that was made to the number `error_source`. -/
def State.watches (st : State) (error_source session : ℕ) : Bool :=
  (st.watching_session session).any fun watched => watched.1.equals error_source

/-- The call with a session, if it is pending on the service `error_source`. -/
def State.pending (st : State) (error_source session : ℕ) : Option ℕ :=
  (st.watching_session session).bind fun watched =>
    if watched.1.service = error_source then some watched.2 else none

/-- `_error_dispatch`; `order` are the sessions of `watching_session`, in the order of `pairs`. -/
def error_dispatch (st : State) (error_session error_source : ℕ) (order : List ℕ) : State :=
  if error_session = 0 then
    { st with
      dead_service := if (st.watching_service error_source).isSome then
        Function.update st.dead_service error_source true else st.dead_service
      error_queue := st.error_queue ++ order.filter (st.watches error_source)
      doomed := st.doomed ++ order.filterMap (st.pending error_source) }
  else if (st.watching_session error_session).isSome then
    { st with error_queue := st.error_queue ++ [error_session] }
  else st

/-- What happens: a message is dispatched, or a forked coroutine is taken; a coroutine wakes another one, forks
one, or creates one for a timeout, calls a response that it has kept, or is suspended; or `suspend` goes on. -/
inductive Event where
  | response (session : ℕ)
  | request (co session source : ℕ)
  | error (co session source : ℕ) (order : List ℕ)
  | forked (co : ℕ)
  | wakeup (co : ℕ)
  | fork (co : ℕ)
  | timeout (session co : ℕ)
  | respond (address : ℕ)
  | suspend (command : Command)
  | dispatch

/-- A step of a message that is dispatched. -/
def message (st : State) : Event → Option State
  | .response session =>
      match st.session_id_coroutine session with
      | .BREAK =>
          some { st with
            session_id_coroutine := Function.update st.session_id_coroutine session .nil }.ended
      | .nil => some st.ended
      | .co co =>
          some ({ st with
            session_id_coroutine := Function.update st.session_id_coroutine session .nil }.resume co 0)
  | .request co session source =>
      if st.point co = .free then some (st.start co session source) else none
  | .error co session source order =>
      if st.point co = .free then
        some (suspend (error_dispatch (st.start co session source) session source order) co 0 .EXIT)
      else none
  | _ => none

/-- A step of the coroutine `co`. -/
def act (st : State) (co frames : ℕ) : Event → Option State
  | .wakeup co' =>
      match st.point co' with
      | .sleeping _ wait _ =>
          some { st with
            wakeup_queue := st.wakeup_queue ++ [(co', wait)]
            woken := st.woken ++ [wait] }
      | _ => some st
  | .fork co' =>
      if st.point co' = .free then
        some { st.stop co' .forked with fork_queue := st.fork_queue ++ [co'] }
      else none
  | .timeout session co' =>
      if st.point co' = .free then
        some { st.stop co' (.timed session) with
          session_id_coroutine := Function.update st.session_id_coroutine session (.co co') }
      else none
  | .respond address => some (release_watching st address)
  | .suspend command => some (suspend st co frames command)
  | _ => none

/-- A step. -/
def step (st : State) (e : Event) : Option State :=
  match st.control with
  | .idle => message st e
  | .loop =>
      match e with
      | .forked co =>
          if co ∈ st.fork_queue then
            some ({ st with fork_queue := st.fork_queue.erase co }.resume co 0)
          else none
      | _ => none
  | .running co frames => act st co frames e
  | .suspend frames =>
      match e with
      | .dispatch => some (dispatch_wakeup st frames)
      | _ => none

/-- No message has been dispatched. -/
structure Started (st : State) : Prop where
  control : st.control = .idle
  point : ∀ co, st.point co = .free ∨ co ∈ st.fork_queue ∧ st.point co = .forked ∨
    ∃ session, st.point co = .timed session
  linked : ∀ session co, st.session_id_coroutine session = .co co ↔ st.point co = .timed session
  watching_session : ∀ session, st.watching_session session = none
  wakeup_queue : st.wakeup_queue = []
  error_queue : st.error_queue = []
  fork_queue : st.fork_queue.Nodup ∧ ∀ co ∈ st.fork_queue, st.point co = .forked
  woken : st.woken = []
  resumed : st.resumed = []
  broken : st.broken = []
  doomed : st.doomed = []
  failed : st.failed = []

/-- The service. -/
def machine : Machine State Event where
  init := Started
  step := step

end DispatchMessage

end Skynet
