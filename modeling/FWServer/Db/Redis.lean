import FWServer.Db.DbTable
import Mathlib.Algebra.Group.Int.Defs
import Std.Data.String.ToInt

/-!
# Redis hashes

The commands `dbredis` sends to redis: one hash per table, from field names to strings.  Each
command is atomic.  A failing command is answered by an error, which the client raises.
-/

open Lua

/-- The hashes of the tables. -/
abbrev Redis : Type :=
  TName → AList fun _ : String => String

namespace Redis

/-- A command with its arguments, the first of which names the hash. -/
inductive Command where
  | connect
  | hmget (tname : TName) (fields : List String)
  | hmset (tname : TName) (field value : String)
  | hincrby (tname : TName) (field : String) (n : ℤ)
  | hgetall (tname : TName)
  | hdel (tname : TName) (fields : List String)

/-- What redis answers. -/
inductive Reply where
  | status
  | bulks (l : List (Option String))
  | int (n : ℤ)

/-- The arguments a list of values is sent as: the values before the first `nil`. -/
def arguments (vs : List Value) : List String :=
  (vs.takeWhile (· ≠ .nil)).map Value.tostring

/-- The number a string is the decimal notation of, as `HINCRBY` reads it: without spaces or zeros in front. -/
def tonumber (s : String) : Option ℤ :=
  s.toInt?.filter fun n => n.repr = s

@[simp]
theorem tonumber_repr (n : ℤ) :
  tonumber n.repr = some n
  := by
  simp [tonumber]

/-- Different numbers have different notations. -/
theorem repr_injective :
  Function.Injective Int.repr
  := by
  intro m n h
  have hm := tonumber_repr m
  rw [h, tonumber_repr] at hm
  exact (Option.some.inj hm).symm

/-- Whether a number fits in 64 bits. -/
def inRange (n : ℤ) : Bool :=
  -2 ^ 63 ≤ n && n < 2 ^ 63

/-- `HINCRBY`: an absent field counts as zero. -/
def hincrby (tname : TName) (field : String) (n : ℤ) (db : Redis) :
    Except String Reply × Redis :=
  match tonumber (((db tname).lookup field).getD "0") with
  | none => (.error "ERR hash value is not an integer", db)
  | some m =>
      if inRange (m + n) then
        (.ok (.int (m + n)),
          Function.update db tname ((db tname).insert field (m + n).repr))
      else
        (.error "ERR increment or decrement would overflow", db)

/-- The effect of a command. -/
def exec : Command → Redis → Except String Reply × Redis
  | .connect, db => (.ok .status, db)
  | .hmget _ [], db => (.error "ERR wrong number of arguments for 'hmget' command", db)
  | .hmget tname fields, db => (.ok (.bulks (fields.map fun f => (db tname).lookup f)), db)
  | .hmset tname field value, db =>
      (.ok .status, Function.update db tname ((db tname).insert field value))
  | .hincrby tname field n, db => hincrby tname field n db
  | .hgetall tname, db =>
      (.ok (.bulks ((db tname).entries.flatMap fun e => [some e.1, some e.2])), db)
  | .hdel _ [], db => (.error "ERR wrong number of arguments for 'hdel' command", db)
  | .hdel tname fields, db =>
      (.ok (.int (fields.countP fun f => f ∈ db tname)),
        Function.update db tname (fields.foldl (fun h f => h.erase f) (db tname)))

end Redis
