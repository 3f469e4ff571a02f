import FWServer.Kernel.Machine
import Mathlib.Data.List.Basic
import Mathlib.Logic.Function.Basic

/-!
# The data center

`service/datacenterd.lua`: a tree of values that services read, write, and wait for at a path of keys.  The
requests that wait are kept in a second tree, whose leaves are queues.

What is written has been unpacked from a message, so that no two places share a table.  A table is given by the
value of each key; numbers are of any type `ν`, and are equal if they are the same key.  What raises gives
nothing.  A `WAIT` is known by its number.
-/

namespace Skynet

namespace Datacenter

/-- A key of a path. -/
inductive Key (ν : Type) where
  | str (s : String)
  | num (n : ν)
  | bool (b : Bool)
  deriving DecidableEq

/-- A value of a table.  A function is not in a message, but the library of strings has some. -/
inductive Value (ν : Type) where
  | nil
  | str (s : String)
  | num (n : ν)
  | bool (b : Bool)
  | func (name : String)
  | table (t : Key ν → Value ν)

/-- What waits at a key: nothing, a queue of requests, or what waits below. -/
inductive Waiters (ν : Type) where
  | none
  | queue (q : List ℕ)
  | branch (t : Key ν → Waiters ν)

/-- The functions of the library of strings. -/
def stringLibrary : List String :=
  ["byte", "char", "dump", "find", "format", "gmatch", "gsub", "len", "lower", "match", "rep", "reverse",
    "sub", "upper", "pack", "packsize", "unpack"]

section

variable {ν : Type} [DecidableEq ν]

/-- Whether a value counts as true. -/
def Value.truthy : Value ν → Bool
  | .nil => false
  | .bool b => b
  | _ => true

/-- The key that a value is, if any; a table is the key of nothing. -/
def Value.key : Value ν → Option (Key ν)
  | .str s => some (.str s)
  | .num n => some (.num n)
  | .bool b => some (.bool b)
  | _ => none

/-- `db[key]` -/
def index : Value ν → Key ν → Option (Value ν)
  | .table t, key => some (t key)
  | .str _, .str name => some (if name ∈ stringLibrary then .func name else .nil)
  | .str _, _ => some .nil
  | _, _ => none

/-- `db[key] = value` -/
def setIndex (key : Key ν) (value : Value ν) : Value ν → Option (Value ν)
  | .table t => some (.table (Function.update t key value))
  | _ => none

/-- `{}` -/
def Value.empty : Value ν :=
  .table fun _ => .nil

/-- `query` -/
def query (db : Value ν) : List (Key ν) → Option (Value ν)
  | [] => some db
  | key :: keys => (index db key).bind fun d => query d keys

/-- `command.QUERY` -/
def QUERY (database : Value ν) : List (Key ν) → Option (Value ν)
  | [] => some .nil
  | key :: keys => (index database key).bind fun d => if d.truthy then query d keys else some .nil

/-- The table that `update` goes on with. -/
def child : Value ν → Value ν
  | .nil => .empty
  | d => d

/-- `update`: the value there was before, and the table. -/
def update (db : Value ν) (value : Value ν) : List (Key ν) → Option (Value ν × Value ν)
  | [] => none
  | [key] => (index db key).bind fun ret => (setIndex key value db).map fun db => (ret, db)
  | key :: keys =>
      (index db key).bind fun d =>
        (update (child d) value keys).bind fun r => (setIndex key r.2 db).map fun db => (r.1, db)

/-- What `wakeup` finds: the queue, and whether it is returned or its requests are answered by an error. -/
structure Found where
  q : List ℕ
  returned : Bool

/-- `wakeup`; of the keys, the last is the value, and `none` is the key of nothing. -/
def wakeup (db : Key ν → Waiters ν) : List (Option (Key ν)) → Found × (Key ν → Waiters ν)
  | [] => (⟨[], false⟩, db)
  | none :: _ => (⟨[], false⟩, db)
  | some key :: keys =>
      match db key with
      | .none => (⟨[], false⟩, db)
      | .queue q => (⟨q, keys.length = 1⟩, Function.update db key .none)
      | .branch t => ((wakeup t keys).1, Function.update db key (.branch (wakeup t keys).2))

/-- `waitfor`; nothing if an assertion fails. -/
def waitfor (r : ℕ) (db : Key ν → Waiters ν) : List (Key ν) → Option (Key ν → Waiters ν)
  | [] => none
  | [key] =>
      match db key with
      | .none => some (Function.update db key (.queue [r]))
      | .queue q => some (Function.update db key (.queue (q ++ [r])))
      | .branch _ => none
  | key :: keys =>
      match db key with
      | .none => (waitfor r (fun _ => .none) keys).map fun t => Function.update db key (.branch t)
      | .queue _ => none
      | .branch t => (waitfor r t keys).map fun t => Function.update db key (.branch t)

/-- How a `WAIT` is answered. -/
inductive Answer (ν : Type) where
  | value (v : Value ν)
  | error

/-- The service, with the path of each `WAIT` there has been, and the answers to them. -/
structure State (ν : Type) where
  database : Value ν
  wait_queue : Key ν → Waiters ν
  next : ℕ
  path : ℕ → List (Key ν)
  answers : List (ℕ × Answer ν)

/-- A request.  What is written has a path of one key at least. -/
inductive Request (ν : Type) where
  | UPDATE (path : List (Key ν)) (value : Value ν)
  | QUERY (path : List (Key ν))
  | WAIT (path : List (Key ν))

/-- `command.UPDATE` -/
def UPDATE (st : State ν) (path : List (Key ν)) (value : Value ν) : State ν :=
  match update st.database value path with
  | none => st
  | some (ret, database) =>
      if ret.truthy then { st with database := database }
      else
        match value with
        | .nil => { st with database := database }
        | value =>
            let (found, wait_queue) := wakeup st.wait_queue (path.map some ++ [value.key])
            let answer : Answer ν := if found.returned then .value value else .error
            { st with
              database := database
              wait_queue := wait_queue
              answers := st.answers ++ found.q.map fun r => (r, answer) }

/-- The request `WAIT` -/
def WAIT (st : State ν) (path : List (Key ν)) : State ν :=
  let r := st.next
  let st := { st with next := r + 1, path := Function.update st.path r path }
  match QUERY st.database path with
  | none => { st with answers := st.answers ++ [(r, .error)] }
  | some ret =>
      if ret.truthy then
        let answer : Answer ν := match ret with
          | .func _ => .error
          | ret => .value ret
        { st with answers := st.answers ++ [(r, answer)] }
      else
        match waitfor r st.wait_queue path with
        | none => { st with answers := st.answers ++ [(r, .error)] }
        | some wait_queue => { st with wait_queue := wait_queue }

/-- The service, request after request. -/
def machine (ν : Type) [DecidableEq ν] : Machine (State ν) (Request ν) where
  init st := st.database = .empty ∧ (∀ key, st.wait_queue key = .none) ∧ st.next = 0 ∧ st.answers = []
  step st
    | .UPDATE path value => some (UPDATE st path value)
    | .QUERY _ => some st
    | .WAIT path => some (WAIT st path)

end

end Datacenter

end Skynet
