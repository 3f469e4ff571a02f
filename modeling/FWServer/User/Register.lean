import FWServer.Db.Database

/-!
# Users in the database

`gamelogic/user/init.lua`: the record of a user, and how a registration creates it.
-/

open Lua

namespace GameUser

/-- The record of a user, a new one when no key is given. -/
def refreshUserHanlder (userId : Value) : Script Database.Handle :=
  if userId.truthy then Database.query .user userId else Database.insert .user .nil

/-- `g_gameuser.onRegisterUser`: creates a user and returns its id. -/
def onRegisterUser (userName : Value) : Script Value := do
  let userdb ← refreshUserHanlder .nil
  Database.set userdb (.str "userName") userName
  Database.set userdb (.str "gold") (.num 1000)
  Database.set userdb (.str "diamond") (.num 999)
  Database.update userdb
  let userId ← Database.get userdb (.str "userId")
  pure userId

end GameUser
