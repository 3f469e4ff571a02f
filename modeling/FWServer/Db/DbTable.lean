import FWServer.Lua.Value

/-!
# The tables of the database

`config/dbtable.lua`: the tables, and for each its primary key, whether the key is handed
out by counting up, whether all records are loaded at start, and the fields of a record with
their defaults.
-/

open Lua

/-- The names of the tables. -/
inductive TName where
  | account
  | user
  | room
  | item
  deriving DecidableEq, Repr

/-- The definition of a table.  `detail` is the default record. -/
structure TableDef where
  /-- The name of the primary key. -/
  pkey : Value
  /-- Whether the primary key counts up from its value in `detail`. -/
  auto : Bool
  /-- Whether all records are loaded when the server starts. -/
  cache : Bool
  detail : Table

/-- The empty table `{}` as a nested value. -/
def emptyTab : Value := .tab 0

/-- The tables of the server. -/
def dbtable : TName → TableDef
  | .account =>
      { pkey := .str "accountName"
        auto := false
        cache := false
        detail := .ofFields [
          ("accountName", .str ""),
          ("accountPwd", .str ""),
          ("userId", .num 0),
          ("loginip", .str "")] }
  | .user =>
      { pkey := .str "userId"
        auto := true
        cache := false
        detail := .ofFields [
          ("userId", .num 1000),
          ("userName", .str ""),
          ("gold", .num 0),
          ("diamond", .num 0),
          ("viplevel", .num 0)] }
  | .room =>
      { pkey := .str "roomId"
        auto := false
        cache := true
        detail := .ofFields [
          ("roomId", .num 1000),
          ("roomName", .str ""),
          ("roomPwd", .num 0),
          ("gameId", .num 0),
          ("maxPlayer", .num 0),
          ("openNumPlayer", .num 0),
          ("baseBeiLv", .num 0),
          ("baseScore", .num 0),
          ("curJuShu", .num 0),
          ("maxJuShu", .num 0),
          ("ownUserId", .num 0),
          ("playertab", emptyTab),
          ("config", emptyTab)] }
  | .item =>
      { pkey := .str "userId"
        auto := false
        cache := false
        detail := .ofFields [
          ("userId", .num 1000),
          ("allitem", emptyTab)] }

/-- The default record names the primary key of its table. -/
theorem detail_pkey_truthy (t : TName) :
  ((dbtable t).detail.get (dbtable t).pkey).truthy = true
  := by
  cases t <;> decide

/-- The default record has no positional part, so `ipairs` visits none of its fields. -/
theorem detail_ipairs (t : TName) :
  (dbtable t).detail.ipairs = []
  := by
  cases t <;> decide
