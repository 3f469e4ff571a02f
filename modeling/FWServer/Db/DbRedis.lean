import FWServer.Db.Redis
import FWServer.Db.Script
import FWServer.Lua.Numerals

/-!
# The `dbredis` service

`services/skynet/dbredis.lua`: a service of the pool keeps one connection per table and runs
the commands of the scripts on it.  Records are stored as JSON text, under the field named by
their key; the field `autoincrKey` of an auto-increment table counts the keys handed out.
-/

open Lua

/-- The JSON library: `cjson.encode` and `cjson.decode`. -/
structure Cjson where
  encode : Table → String
  decode : String → Except String Table

namespace DbRedis

/-- The state of a service: the tables it has a connection for. -/
structure State where
  lconntab : TName → Bool

/-- The interface of a `dbredis` service, which calls redis. -/
abbrev interface : Interface where
  State := State
  Query := Redis.Command
  Reply := Except String Redis.Reply
  Output := Empty
  Error := String

/-- A coroutine of a `dbredis` service. -/
abbrev Service (α : Type) : Type := Coroutine interface α

/-- The field of the counter, `autoincr_key`. -/
def autoincrKey : String := "_cmy_AUTOINCRMENT_KEY"

/-- Sends a command to redis and waits for the reply, raising an error reply. -/
def command (c : Redis.Command) : Service Redis.Reply :=
  .call c fun r : Except String Redis.Reply =>
    match r with
    | .ok a => .ret a
    | .error e => .raise e

/-- The values of a reply. -/
def bulks : Redis.Reply → List (Option String)
  | .bulks l => l
  | _ => []

/-- Sets the counter of a table that has none or one that is not positive. -/
def setupCounter (tname : TName) : Service Unit := do
  let keytab ← command (.hmget tname [autoincrKey])
  let mauto := (bulks keytab).head?.join.bind fun s => Lua.tonumber s.toUTF8.data.toList
  if mauto.all (· ≤ 0) then
    let mauto := (dbtable tname).detail.get (dbtable tname).pkey
    let _ ← command (.hmset tname autoincrKey mauto.tostring)

/-- Connects for a table when the service has not yet, and then sees to the counter of an
auto-increment table. -/
def lredishandler (tname : TName) : Service Unit := do
  let s ← Coroutine.get
  if s.lconntab tname then
    pure ()
  else
    let _ ← command .connect
    Coroutine.modify fun s : State => { s with lconntab := Function.update s.lconntab tname true }
    if (dbtable tname).auto then
      setupCounter tname
    else
      pure ()

/-- The text of a record and the key it is stored under. -/
def lpackrecord (json : Cjson) (tname : TName) (recordtab : Table) (tokey : Value) :
    String × Value :=
  (json.encode recordtab, tokey.orElse (recordtab.get (dbtable tname).pkey))

/-- The record of a text, with the defaults of the fields `ipairs` finds in the definition of
the table. -/
def lunpackrecord (json : Cjson) (tname : TName) (recordstr : String) : Except String Table :=
  (json.decode recordstr).map fun rtab =>
    (dbtable tname).detail.ipairs.foldl
      (fun rtab fname =>
        if (rtab.get fname).truthy then rtab
        else rtab.set fname ((dbtable tname).detail.get fname)) rtab

/-- Counts one up and returns the count. -/
def lautoincrement (tname : TName) : Service Value := do
  let s ← Coroutine.get
  if s.lconntab tname then
    if (dbtable tname).auto then
      match ← command (.hincrby tname autoincrKey 1) with
      | .int mauto => pure (.num mauto)
      | _ => Coroutine.error "the table not autoincrement!"
    else
      Coroutine.error "the table not autoincrement!"
  else
    pure .nil

/-- The records of an answer of `HGETALL`, the counter left out. -/
def unpackAll (json : Cjson) (tname : TName) : List (Option String) → Except String (List Table)
  | some tokey :: some toval :: resultTab =>
      if tokey = autoincrKey then
        unpackAll json tname resultTab
      else do
        let rtab ← lunpackrecord json tname toval
        let rectab ← unpackAll json tname resultTab
        pure (rtab :: rectab)
  | _ => pure []

/-- A value, or the error it raises. -/
def ofExcept {α : Type} : Except String α → Service α
  | .ok a => .ret a
  | .error e => .raise e

namespace CMD

/-- `CMD.query`: the records of a table, or the one of a key. -/
def query (json : Cjson) (tname : TName) (key : Value) : Service (List Table) := do
  lredishandler tname
  if key.truthy then
    let rettab ← command (.hmget tname (Redis.arguments [key]))
    match (bulks rettab).head?.join with
    | none => pure []
    | some recstr =>
        if recstr = "" then
          pure []
        else
          let rtab ← ofExcept (lunpackrecord json tname recstr)
          pure [rtab]
  else
    let resultTab ← command (.hgetall tname)
    ofExcept (unpackAll json tname (bulks resultTab))

/-- `CMD.update`: stores a record under its own key. -/
def update (json : Cjson) (tname : TName) (rectab : Table) : Service Value :=
  let (packstr, packkey) := lpackrecord json tname rectab .nil
  if packkey.truthy then do
    lredishandler tname
    let _ ← command (.hmset tname packkey.tostring packstr)
    pure (.bool true)
  else
    pure .nil

/-- `CMD.insert`: the next key of an auto-increment table when none is given, and else stores
the default record under the key. -/
def insert (json : Cjson) (tname : TName) (key : Value) : Service Value := do
  lredishandler tname
  if !key.truthy && (dbtable tname).auto then
    lautoincrement tname
  else
    let (packstr, packkey) := lpackrecord json tname (dbtable tname).detail key
    let _ ← command (.hmset tname packkey.tostring packstr)
    pure packkey

/-- `CMD.remove`.  It names the field to delete by the global `packkey`, which is `nil`. -/
def remove (tname : TName) (key : Value) : Service Unit :=
  if key.truthy then do
    lredishandler tname
    let _ ← command (.hdel tname (Redis.arguments [.nil]))
  else
    pure ()

/-- `CMD.closeAll`. -/
def closeAll : Service Unit :=
  Coroutine.modify fun s : State => { s with lconntab := fun _ => false }

/-- What the service runs for a command of the scripts. -/
def dispatch (json : Cjson) : Cmd → Service Answer
  | .query tname key => Answer.records <$> query json tname key
  | .update tname rectab => Answer.value <$> update json tname rectab
  | .insert tname key => Answer.value <$> insert json tname key
  | .remove tname key => do
      remove tname key
      pure (.value .nil)
  | .closeAll => do
      closeAll
      pure (.value .nil)

end CMD

/-! ### Records and counters -/

/-- The two contents of redis differ in the counters at most. -/
def SameRecords (db db' : Redis) : Prop :=
  ∀ tname f, ((dbtable tname).auto = true → f ≠ autoincrKey) →
    (db' tname).lookup f = (db tname).lookup f

theorem SameRecords.refl (db : Redis) :
  SameRecords db db
  := fun _ _ _ => rfl

theorem SameRecords.trans {db db' db'' : Redis} (h : SameRecords db db')
    (h' : SameRecords db' db'') :
  SameRecords db db''
  := fun tname f hf => (h' tname f hf).trans (h tname f hf)

/-- Writing the counter of an auto-increment table changes no record. -/
theorem SameRecords.counter (db : Redis) {tname : TName} (hauto : (dbtable tname).auto = true)
    (v : String) :
  SameRecords db (Function.update db tname ((db tname).insert autoincrKey v))
  := by
  intro tname' f hf
  rcases eq_or_ne tname' tname with rfl | ht
  · rw [Function.update_self, AList.lookup_insert_ne (hf hauto)]
  · rw [Function.update_of_ne ht]

/-- Counting up changes no record. -/
theorem SameRecords.hincrby (db : Redis) {tname : TName} (hauto : (dbtable tname).auto = true) :
  SameRecords db (Redis.exec (.hincrby tname autoincrKey 1) db).2
  := by
  dsimp only [Redis.exec, Redis.hincrby]
  split
  · exact .refl db
  · split
    · exact .counter db hauto _
    · exact .refl db

end DbRedis
