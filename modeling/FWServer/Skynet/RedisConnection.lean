import FWServer.Kernel.Machine
import FWServer.Skynet.RedisRoundTrip
import Mathlib.Data.List.Forall2

/-!
# A connection to redis

The calls that coroutines make on a connection that stays up: `lualib/redis.lua` over the order mode of
`lualib/socketchannel.lua`.  A call sends its requests and puts the function that reads its replies in a queue; a
coroutine of the channel runs these functions one after another.  Redis reads the requests and sends replies, which
arrive in any pieces.  Every call returns what redis has replied to its own requests.

Nothing but these functions reads the socket, so a function is taken to run once all that it reads has arrived.  A
connection that breaks, is closed or is made to another host is not modelled.
-/

namespace Skynet

namespace RedisConnection

open RedisCodec
open Resp (Reply encodeBulks)

variable {α : Type*}

/-! ### Calls -/

/-- A call of a method of a connection: of `command[k]`, of `command:exists`, of `command:sismember`, or of
`command:pipeline` without the table `resp` or with what is in it. -/
inductive Call (α : Type*) where
  | command (k : List UInt8) (args : List α)
  | existsKey (key : Msg α)
  | sismember (key value : α)
  | pipeline (ops : List (List α)) (resp : Option (List (Bool × Value)))

/-- What a call returns or raises. -/
inductive Data where
  | value (v : Value)
  | boolean (b : Bool)
  | responses (resp : List (Bool × Value))

/-- `"EXISTS"` -/
def EXISTS : List UInt8 := [69, 88, 73, 83, 84, 83]

/-- `"SISMEMBER"` -/
def SISMEMBER : List UInt8 := [83, 73, 83, 77, 69, 77, 66, 69, 82]

/-- What a call sends. -/
def Call.lines (tostring : α → List UInt8) : Call α → Caches → List (List UInt8) × Caches
  | .command k args, t => composeMessage tostring (upper k) (.table args) t
  | .existsKey key, t => composeMessage tostring EXISTS key t
  | .sismember key value, t => composeMessage tostring SISMEMBER (.table [key, value]) t
  | .pipeline ops _, t => pipelineRequest tostring ops [] t

/-- `v ~= 0` -/
def notZero : Value → Bool
  | .integer n => n != 0
  | _ => true

/-- `read_boolean` -/
def readBoolean (so : List UInt8) : Option ((Bool × Bool) × List UInt8) :=
  (readResponse so).map fun ((ok, result), so) => ((ok, notZero result), so)

/-- The last response of a pipeline. -/
def lastResponse (resp : List (Bool × Value)) : Bool × Data :=
  match resp.getLast? with
  | some (ok, out) => (ok, .value out)
  | none => (false, .value .nil)

/-- The function that reads the replies to a call. -/
def Call.response : Call α → List UInt8 → Option ((Bool × Data) × List UInt8)
  | .command _ _, fd => (readResponse fd).map fun ((ok, v), fd) => ((ok, .value v), fd)
  | .existsKey _, fd | .sismember _ _, fd => (readBoolean fd).map fun ((ok, b), fd) => ((ok, .boolean b), fd)
  | .pipeline ops (some resp), fd =>
      (pipelineReplies ops.length fd).map fun (outs, fd) => ((true, .responses (resp ++ outs)), fd)
  | .pipeline ops none, fd => (pipelineReplies ops.length fd).map fun (outs, fd) => (lastResponse outs, fd)

/-- The end of `wait_for_response`: `assert(result, result_data)`. -/
def returns : Bool × Data → Except Data Data
  | (true, data) => .ok data
  | (false, data) => .error data

/-! ### The connection -/

/-- A connection: the caches of the file, the bytes on their way to redis, those on their way back and those that have
arrived, and the queues `__request` and `__thread`, whose coroutines are numbered by their calls.

The rest is not in the source: the calls, the requests that redis has replied to with its replies, and what the calls
have returned. -/
structure State (α : Type*) where
  caches : Caches
  up : List UInt8
  down : List UInt8
  fd : List UInt8
  request : List (Call α × ℕ)
  calls : List (Call α)
  replied : List (List (List UInt8) × Reply)
  returned : List (Except Data Data × ℕ)

/-- The connection when the file has been loaded. -/
def State.start (α : Type*) : State α where
  caches := .loaded
  up := []
  down := []
  fd := []
  request := []
  calls := []
  replied := []
  returned := []

/-- What happens: a coroutine makes a call, redis reads the next request and replies, bytes arrive, or the channel
runs the next function to its end. -/
inductive Event (α : Type*) where
  | call (call : Call α)
  | serve (reply : Reply)
  | arrive (n : ℕ)
  | respond

variable (tostring : α → List UInt8)

/-- A call sends its requests and is queued. -/
def State.send (s : State α) (call : Call α) : State α :=
  let (lines, caches) := call.lines tostring s.caches
  { s with
    caches := caches
    up := s.up ++ lines.flatten
    request := s.request ++ [(call, s.calls.length)]
    calls := s.calls ++ [call] }

/-- A step of the connection.  A pipeline of no commands raises an error before it does anything.  Redis does not
reply to a request without arguments. -/
def step (s : State α) : Event α → Option (State α)
  | .call (.pipeline [] _) => some s
  | .call call => some (s.send tostring call)
  | .serve reply =>
      match Resp.request s.up with
      | none => none
      | some ([], up) => some { s with up := up }
      | some (args, up) =>
          some { s with up := up, down := s.down ++ reply.encode, replied := s.replied ++ [(args, reply)] }
  | .arrive n => some { s with fd := s.fd ++ s.down.take n, down := s.down.drop n }
  | .respond =>
      match s.request with
      | [] => none
      | (func, co) :: request =>
          (func.response s.fd).map fun (result, fd) =>
            { s with fd := fd, request := request, returned := s.returned ++ [(returns result, co)] }

/-- A connection and redis, under any sequence of events. -/
def machine : Machine (State α) (Event α) where
  init s := s = .start α
  step := step tostring

/-- No pipeline has a command without arguments. -/
def Proper (_ : State α) : Event α → Prop
  | .call (.pipeline ops _) => ∀ cmd ∈ ops, cmd ≠ []
  | _ => True

/-! ### What is asked and what comes back -/

/-- The requests of a call. -/
def Call.requests : Call α → List (List (List UInt8))
  | .command k args => [upper k :: args.map tostring]
  | .existsKey (.table args) => [EXISTS :: args.map tostring]
  | .existsKey (.other key) => [[EXISTS, tostring key]]
  | .sismember key value => [[SISMEMBER, tostring key, tostring value]]
  | .pipeline ops _ => ops.map fun cmd => cmd.map tostring

/-- How many replies a call reads. -/
def Call.count : Call α → ℕ
  | .pipeline ops _ => ops.length
  | _ => 1

/-- What the responses that are read for a call come to. -/
def Call.outcome : Call α → List (Bool × Value) → Bool × Data
  | .command _ _, (ok, v) :: _ => (ok, .value v)
  | .existsKey _, (ok, v) :: _ | .sismember _ _, (ok, v) :: _ => (ok, .boolean (notZero v))
  | .pipeline _ (some resp), outs => (true, .responses (resp ++ outs))
  | .pipeline _ none, outs => lastResponse outs
  | _, [] => (false, .value .nil)

/-- What the replies to a call come to. -/
def Call.data (call : Call α) (replies : List Reply) : Bool × Data :=
  call.outcome (replies.map fun r => (isOk r, valueOf r))

variable {tostring}

theorem length_requests (call : Call α) :
  (call.requests tostring).length = call.count
  := by
  cases call with
  | command k args => rfl
  | existsKey key => cases key <;> rfl
  | sismember key value => rfl
  | pipeline ops resp => exact List.length_map _

theorem upper_upper (s : List UInt8) :
  upper (upper s) = upper s
  := by
  rw [upper, upper, List.map_map]
  apply List.map_congr_left
  intro c _
  have hhigh : 97 ≤ c ∧ c ≤ 122 → ¬ 97 ≤ c - 32 := by
    intro hc
    grind
  grind

/-- A call sends its requests. -/
theorem flatten_lines (call : Call α) (t : Caches) :
  (call.lines tostring t).1.flatten = (call.requests tostring).flatMap encodeBulks
  := by
  cases call with
  | command k args =>
      rw [Call.lines, flatten_composeMessage, upper_upper, Call.requests, List.flatMap_singleton]
  | existsKey key =>
      cases key with
      | table args =>
          rw [Call.lines, flatten_composeMessage, Call.requests, List.flatMap_singleton]
          rfl
      | other key =>
          rw [Call.lines, flatten_composeMessage_other, Call.requests, List.flatMap_singleton]
          rfl
  | sismember key value =>
      rw [Call.lines, flatten_composeMessage, Call.requests, List.flatMap_singleton]
      rfl
  | pipeline ops resp =>
      rw [Call.lines, flatten_pipelineRequest, Call.requests, List.flatMap_def, List.map_map]
      rfl

/-- The function of a call reads its replies one after the other. -/
theorem response_eq (call : Call α) (fd : List UInt8) :
  call.response fd = (pipelineReplies call.count fd).map fun (outs, fd) => (call.outcome outs, fd)
  := by
  cases call with
  | command k args =>
      change _ = (pipelineReplies 1 fd).map _
      rw [pipelineReplies_one, Call.response, Option.map_map]
      rfl
  | existsKey key =>
      change _ = (pipelineReplies 1 fd).map _
      rw [pipelineReplies_one, Call.response, readBoolean, Option.map_map, Option.map_map]
      rfl
  | sismember key value =>
      change _ = (pipelineReplies 1 fd).map _
      rw [pipelineReplies_one, Call.response, readBoolean, Option.map_map, Option.map_map]
      rfl
  | pipeline ops resp => cases resp <;> rfl

/-- The replies to a call are read by its function, which leaves what comes after them. -/
theorem response_encode (call : Call α) {replies : List Reply} (h : replies.length = call.count)
    (after : List UInt8) :
  call.response (replies.flatMap Reply.encode ++ after) = some (call.data replies, after)
  := by
  rw [response_eq, ← h, List.flatMap_def, pipelineReplies_encode, Option.map_some, Call.data]

/-- As long as replies to a call are missing, its function waits. -/
theorem response_missing (call : Call α) {replies : List Reply} (h : replies.length < call.count) :
  call.response (replies.flatMap Reply.encode) = none
  := by rw [response_eq, pipelineReplies_missing h, Option.map_none]

/-- A function that returns would have returned the same, had more arrived. -/
theorem response_append (call : Call α) {fd rest : List UInt8} {result : Bool × Data}
    (h : call.response fd = some (result, rest)) (after : List UInt8) :
  call.response (fd ++ after) = some (result, rest ++ after)
  := by
  rw [response_eq] at h ⊢
  obtain ⟨⟨outs, rest'⟩, hread, heq⟩ := Option.map_eq_some_iff.mp h
  obtain ⟨rfl, rfl⟩ := Prod.mk.inj heq
  rw [pipelineReplies_append hread, Option.map_some]

/-! ### Matching calls and replies -/

variable (tostring) in
/-- The calls `earlier` have returned what the replies in `own` come to, and the others wait, for the replies in
`unread` and for those to the requests that redis has not read yet. -/
structure Matched (s : State α) (earlier waiting : List (Call α)) (own : List (List (List (List UInt8) × Reply)))
    (unread : List (List (List UInt8) × Reply)) (unserved : List (List (List UInt8))) : Prop where
  calls : s.calls = earlier ++ waiting
  request : s.request = waiting.zipIdx earlier.length
  replied : s.replied = own.flatten ++ unread
  matched : List.Forall₂ (fun call x => x.map Prod.fst = call.requests tostring) earlier own
  returned : s.returned = (List.zipWith (fun call x => returns (call.data (x.map Prod.snd))) earlier own).zipIdx
  requests : unread.map Prod.fst ++ unserved = waiting.flatMap (Call.requests tostring)
  up : s.up = unserved.flatMap encodeBulks
  bytes : s.fd ++ s.down = (unread.map Prod.snd).flatMap Reply.encode
  arguments : ∀ args ∈ unserved, args ≠ []

section Matched

variable {s s' : State α} {earlier waiting : List (Call α)} {own : List (List (List (List UInt8) × Reply))}
  {unread : List (List (List UInt8) × Reply)} {unserved : List (List (List UInt8))}

/-- Every request has an argument. -/
theorem requests_ne_nil {call : Call α} (h : ∀ ops resp, call = .pipeline ops resp → ∀ cmd ∈ ops, cmd ≠ []) :
  ∀ args ∈ call.requests tostring, args ≠ []
  := by
  intro args hargs
  cases call with
  | command k l =>
      obtain rfl := List.mem_singleton.mp hargs
      exact List.cons_ne_nil _ _
  | existsKey key =>
      cases key <;> obtain rfl := List.mem_singleton.mp hargs <;> exact List.cons_ne_nil _ _
  | sismember key value =>
      obtain rfl := List.mem_singleton.mp hargs
      exact List.cons_ne_nil _ _
  | pipeline ops resp =>
      obtain ⟨cmd, hcmd, rfl⟩ := List.mem_map.mp hargs
      exact fun hnil => h ops resp rfl cmd hcmd (List.map_eq_nil_iff.mp hnil)

theorem Matched.send (h : Matched tostring s earlier waiting own unread unserved) {call : Call α}
    (hcall : ∀ args ∈ call.requests tostring, args ≠ []) :
  Matched tostring (s.send tostring call) earlier (waiting ++ [call]) own unread
    (unserved ++ call.requests tostring)
  := by
  constructor
  · change s.calls ++ [call] = _
    rw [h.calls, List.append_assoc]
  · change s.request ++ [(call, s.calls.length)] = _
    rw [h.request, h.calls, List.zipIdx_append, List.length_append]
    rfl
  · exact h.replied
  · exact h.matched
  · exact h.returned
  · rw [← List.append_assoc, h.requests, List.flatMap_append, List.flatMap_singleton]
  · change s.up ++ (call.lines tostring s.caches).1.flatten = _
    rw [h.up, flatten_lines, List.flatMap_append]
  · exact h.bytes
  · intro args hargs
    obtain hargs | hargs := List.mem_append.mp hargs
    · exact h.arguments args hargs
    · exact hcall args hargs

theorem Matched.serve {args : List (List UInt8)} {unserved : List (List (List UInt8))}
    (h : Matched tostring s earlier waiting own unread (args :: unserved)) (reply : Reply) :
  Matched tostring { s with
    up := unserved.flatMap encodeBulks
    down := s.down ++ reply.encode
    replied := s.replied ++ [(args, reply)] } earlier waiting own (unread ++ [(args, reply)]) unserved
  := by
  constructor
  · exact h.calls
  · exact h.request
  · change s.replied ++ _ = _
    rw [h.replied, List.append_assoc]
  · exact h.matched
  · exact h.returned
  · rw [← h.requests, List.map_append, List.append_assoc]
    rfl
  · rfl
  · change s.fd ++ (s.down ++ reply.encode) = _
    rw [← List.append_assoc, h.bytes, List.map_append, List.flatMap_append]
    exact congrArg _ (List.flatMap_singleton _ _).symm
  · exact fun args' hargs => h.arguments args' (List.mem_cons_of_mem _ hargs)

theorem Matched.arrive (h : Matched tostring s earlier waiting own unread unserved) (n : ℕ) :
  Matched tostring { s with fd := s.fd ++ s.down.take n, down := s.down.drop n } earlier waiting own unread unserved
  := by
  refine ⟨h.calls, h.request, h.replied, h.matched, h.returned, h.requests, h.up, ?_, h.arguments⟩
  change s.fd ++ s.down.take n ++ s.down.drop n = _
  rw [List.append_assoc, List.take_append_drop]
  exact h.bytes

/-- A function that returns has read the replies to its own call. -/
theorem Matched.respond {call : Call α} {waiting : List (Call α)}
    (h : Matched tostring s earlier (call :: waiting) own unread unserved) {result : Bool × Data} {fd : List UInt8}
    (hresponse : call.response s.fd = some (result, fd)) :
  ∃ mine unread', Matched tostring { s with
    fd := fd
    request := waiting.zipIdx (earlier.length + 1)
    returned := s.returned ++ [(returns result, earlier.length)] }
      (earlier ++ [call]) waiting (own ++ [mine]) unread' unserved
  := by
  have hread := response_append call hresponse s.down
  rw [h.bytes] at hread
  have hcount : (call.requests tostring).length = call.count := length_requests call
  have henough : call.count ≤ unread.length := by
    by_contra hshort
    have hfew : (unread.map Prod.snd).length < call.count := by
      rw [List.length_map]
      omega
    rw [response_missing call hfew] at hread
    cases hread
  have hlength : ((unread.take call.count).map Prod.snd).length = call.count := by
    rw [List.length_map, List.length_take, min_eq_left henough]
  have hsplit : (unread.map Prod.snd).flatMap Reply.encode =
      ((unread.take call.count).map Prod.snd).flatMap Reply.encode ++
      ((unread.drop call.count).map Prod.snd).flatMap Reply.encode := by
    rw [← List.flatMap_append, ← List.map_append, List.take_append_drop]
  rw [hsplit, response_encode call hlength] at hread
  obtain ⟨hdata, hbytes⟩ := Prod.mk.inj (Option.some.inj hread)
  have hrequests : (unread.take call.count).map Prod.fst = call.requests tostring := by
    have htake := congrArg (List.take call.count) h.requests
    rw [List.flatMap_cons, List.take_append_of_le_length (by rw [List.length_map]; exact henough),
      ← hcount, List.take_left, hcount, ← List.map_take] at htake
    exact htake
  use unread.take call.count, unread.drop call.count
  constructor
  · rw [List.append_assoc]
    exact h.calls
  · rw [List.length_append]
    rfl
  · rw [List.flatten_append, List.flatten_singleton, List.append_assoc, List.take_append_drop]
    exact h.replied
  · exact List.rel_append h.matched (.cons hrequests .nil)
  · change s.returned ++ _ = _
    have hlen := h.matched.length_eq
    rw [List.zipWith_append hlen, List.zipIdx_append, List.length_zipWith, ← hlen, min_self, h.returned, ← hdata,
      Nat.zero_add]
    rfl
  · have hdrop := congrArg (List.drop call.count) h.requests
    rw [List.flatMap_cons, List.drop_append_of_le_length (by rw [List.length_map]; exact henough),
      ← hcount, List.drop_left, hcount, ← List.map_drop] at hdrop
    exact hdrop
  · exact h.up
  · exact hbytes.symm
  · exact h.arguments

/-- A step under the guard keeps calls and replies matched. -/
theorem Matched.step (h : Matched tostring s earlier waiting own unread unserved) {e : Event α} (hproper : Proper s e)
    (hstep : step tostring s e = some s') :
  ∃ earlier waiting own unread unserved, Matched tostring s' earlier waiting own unread unserved
  := by
  cases e with
  | call call =>
      by_cases hnone : ∃ resp, call = .pipeline [] resp
      · obtain ⟨resp, rfl⟩ := hnone
        obtain rfl := Option.some.inj hstep
        exact ⟨_, _, _, _, _, h⟩
      · have hsend : RedisConnection.step tostring s (.call call) = some (s.send tostring call) := by
          unfold RedisConnection.step
          split
          · next resp heq => exact absurd ⟨_, Event.call.inj heq⟩ hnone
          · next heq =>
            obtain rfl := Event.call.inj heq
            rfl
          all_goals next heq => cases heq
        obtain rfl := Option.some.inj (hsend.symm.trans hstep)
        refine ⟨_, _, _, _, _, h.send (requests_ne_nil ?_)⟩
        rintro ops resp rfl
        exact hproper
  | serve reply =>
      cases unserved with
      | nil =>
          have hup : s.up = [] := h.up
          rw [RedisConnection.step, hup] at hstep
          cases hstep
      | cons args unserved =>
          have hrequest : Resp.request s.up = some (args, unserved.flatMap encodeBulks) := by
            rw [h.up, List.flatMap_cons]
            exact Resp.request_encodeBulks args _
          obtain ⟨a, args, rfl⟩ := List.exists_cons_of_ne_nil (h.arguments _ List.mem_cons_self)
          rw [RedisConnection.step, hrequest] at hstep
          obtain rfl := Option.some.inj hstep
          exact ⟨_, _, _, _, _, h.serve reply⟩
  | arrive n =>
      obtain rfl := Option.some.inj hstep
      exact ⟨_, _, _, _, _, h.arrive n⟩
  | respond =>
      cases waiting with
      | nil =>
          have hrequest : s.request = [] := h.request
          rw [RedisConnection.step, hrequest] at hstep
          cases hstep
      | cons call waiting =>
          have hrequest : s.request = (call, earlier.length) :: waiting.zipIdx (earlier.length + 1) := h.request
          rw [RedisConnection.step, hrequest] at hstep
          obtain ⟨⟨result, fd⟩, hresponse, rfl⟩ := Option.map_eq_some_iff.mp hstep
          obtain ⟨mine, unread', hmatched⟩ := h.respond hresponse
          exact ⟨_, _, _, _, _, hmatched⟩

end Matched

-- A command without arguments is not replied to, and its pipeline takes the reply to the next call.
example :
  ∃ s, (machine id).exec (.start (List UInt8)) [.call (.pipeline [[]] none), .call (.existsKey (.other [97])),
      .serve .nilBulk, .serve (.integer 1 (by decide) (by decide)), .arrive 4, .respond] = some s ∧
    s.replied.map Prod.fst = [[EXISTS, [97]]] ∧ s.returned.map Prod.snd = [0]
  := ⟨_, rfl, rfl, rfl⟩

end RedisConnection

end Skynet
