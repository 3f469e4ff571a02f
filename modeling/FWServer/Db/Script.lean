import FWServer.Db.DbTable
import FWServer.Kernel.Coroutine

/-!
# The script process

The scripts run in one process, that of the watchdog service.  Its coroutines share the state
`Script.State`, of which this development keeps the tables of `g_database`, and suspend in
`skynet.call`, most often to a `dbredis` service of the pool.
-/

open Lua

/-! ### Messages -/

/-- A command for a `dbredis` service. -/
inductive Cmd where
  | query (tname : TName) (key : Value)
  | update (tname : TName) (rectab : Table)
  | insert (tname : TName) (key : Value)
  | remove (tname : TName) (key : Value)
  | closeAll
  deriving DecidableEq

/-- What a `dbredis` service answers: a list of records or one value. -/
inductive Answer where
  | records (l : List Table)
  | value (v : Value)

namespace Answer

/-- The records of an answer. -/
def tabs : Answer → List Table
  | .records l => l
  | .value _ => []

/-- The value of an answer. -/
def val : Answer → Value
  | .records _ => .nil
  | .value v => v

end Answer

namespace Script

/-- A call that suspends a coroutine of the scripts: a command for the service at `dest`, or
`g_gameuser.onLoginUser`, which calls the database in its turn. -/
inductive Call where
  | redis (dest : ℕ) (cmd : Cmd)
  | onLoginUser (fd : ℕ) (userId : Value) (ischecklogin : Bool)

/-- A message to the client connected at `fd`. -/
inductive Message where
  | errcode (fd : ℕ) (code : String)
  | prot (fd : ℕ) (mainId assistId : ℕ) (data : List (String × Value))
  deriving DecidableEq

/-! ### The state -/

/-- The pool of `dbredis` services, `g_database.m_hredistab`. -/
structure Pool where
  handlers : List ℕ
  ne_nil : handlers ≠ []
  nodup : handlers.Nodup

/-- Four services make a pool. -/
theorem fourServices_ne_nil :
  ([10, 11, 12, 13] : List ℕ) ≠ []
  := List.cons_ne_nil _ _

theorem fourServices_nodup :
  ([10, 11, 12, 13] : List ℕ).Nodup
  := by decide

/-- When a cached record is next to be written back, and to be dropped. -/
structure DueTime where
  uptime : ℤ
  deltime : ℤ

/-- The tables of `g_database`, the heap they live in and the globals they are used with. -/
structure State where
  heap : Heap TName
  /-- `g_database.m_cache` -/
  cache : TName → AList fun _ : Value => Ref TName
  /-- `dtab` of the tables of `g_database.m_ctimetab` -/
  dtab : TName → AList fun _ : Value => DueTime
  /-- `os.time()` -/
  time : ℤ
  /-- `G_DB_UPDATE_TIME` -/
  updateTime : ℤ
  /-- `G_DB_DELETE_TIME` -/
  deleteTime : ℤ
  pool : Pool
  numhandler : ℕ
  isdestroyAll : Bool

/-- The interface of the script process. -/
abbrev interface : Interface where
  State := State
  Query := Call
  Reply := Except String Answer
  Output := Message
  Error := String

end Script

/-- A coroutine of the scripts. -/
abbrev Script (α : Type) : Type := Coroutine Script.interface α

namespace Script

/-- The tables `dbtable[tname].detail`, before any other is created. -/
def details : Heap TName where
  cells
    | .static tname => (dbtable tname).detail
    | .created _ => ∅
  next := 0

/-- The state once `g_database.init` has started the pool and called `dbcache.init`, with the
periods the configuration sets. -/
def initial (pool : Pool) : State where
  heap := details
  cache _ := ∅
  dtab _ := ∅
  time := 0
  updateTime := 600
  deleteTime := 900
  pool := pool
  numhandler := 1
  isdestroyAll := false

/-- The content of the table `r`. -/
def State.deref (s : State) (r : Ref TName) : Table :=
  s.heap.cells r

/-- The default record of the table `tname` as it stands. -/
def State.detail (s : State) (tname : TName) : Table :=
  s.deref (.static tname)

/-- Creates a table with the content `t`. -/
def newTable (t : Table) : Script (Ref TName) :=
  .read fun s : State => .write { s with heap := s.heap.alloc t } (.ret (.created s.heap.next))

/-- `r[k] = v`. -/
def assign (r : Ref TName) (k v : Value) : Script Unit :=
  Coroutine.modify fun s : State => { s with heap := s.heap.assign r k v }

/-- What a call makes of the reply: it raises what the service raised. -/
def ofReply : Except String Answer → Script Answer
  | .ok a => .ret a
  | .error e => .raise e

@[simp]
theorem ofReply_ok_bind {α : Type} (a : Answer) (f : Answer → Script α) :
  (ofReply (.ok a) >>= f) = f a
  := rfl

/-- `skynet.call(dest, "lua", cmd, "ret", …)` -/
def skynetCall (dest : ℕ) (cmd : Cmd) : Script Answer :=
  .call (.redis dest cmd) ofReply

end Script
