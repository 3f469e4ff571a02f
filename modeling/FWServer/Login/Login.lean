import FWServer.User.Register

/-!
# Logging in and registering

`gamelogic/login/init.lua`: the handlers of the login protocol.
-/

open Lua

namespace Login

/-! ### The protocol -/

/-- `MID_Protocol_Login` -/
def midProtocolLogin : ℕ := 100

/-- `ALogin_S2CSignIN` -/
def s2cSignIN : ℕ := 200

/-- `ALogin_S2CRegAccount` -/
def s2cRegAccount : ℕ := 201

/-- `ALogin_S2CReDoLogin` -/
def s2cReDoLogin : ℕ := 204

/-- `ALogin_S2CCheckSignIN` -/
def s2cCheckSignIN : ℕ := 205

/-- `g_protocol.sendErrcode` -/
def sendErrcode (fd : ℕ) (code : String) : Script Unit :=
  Coroutine.send (Script.Message.errcode fd code)

/-- `g_protocol.sendProt` -/
def sendProt (fd mainId assistId : ℕ) (data : List (String × Value)) : Script Unit :=
  Coroutine.send (Script.Message.prot fd mainId assistId data)

/-- `g_gameuser.onLoginUser`, which suspends in the database; it returns `true` or raises. -/
def onLoginUser (fd : ℕ) (userId : Value) (ischecklogin : Bool) : Script Value :=
  .call (.onLoginUser fd userId ischecklogin) fun r => Answer.val <$> Script.ofReply r

/-! ### The handlers -/

/-- The handler of `ALogin_C2SSignIN`. -/
def onLogin (fd : ℕ) (protTab : Table) : Script Unit :=
  let loginName := protTab.get (.str "loginName")
  let loginPwd := protTab.get (.str "loginPwd")
  if !loginName.truthy || !loginPwd.truthy then
    sendErrcode fd "M_LOGIN_ACC_OR_PWD_ERROR"
  else do
    let db ← Database.query .account loginName
    let accountPwd ← Database.get db (.str "accountPwd")
    if accountPwd ≠ loginPwd then
      sendErrcode fd "M_LOGIN_ACC_OR_PWD_ERROR"
    else
      let userId ← Database.get db (.str "userId")
      let _ ← onLoginUser fd userId false
      sendProt fd midProtocolLogin s2cSignIN [("loginIn", .num 1)]

/-- The handler of `ALogin_C2SCheckSignIN`. -/
def onCheckLogin (fd : ℕ) (protTab : Table) : Script Unit :=
  let loginName := protTab.get (.str "loginName")
  let loginPwd := protTab.get (.str "loginPwd")
  if !loginName.truthy || !loginPwd.truthy then
    sendProt fd midProtocolLogin s2cReDoLogin []
  else do
    let db ← Database.query .account loginName
    let accountPwd ← Database.get db (.str "accountPwd")
    if accountPwd ≠ loginPwd then
      sendProt fd midProtocolLogin s2cReDoLogin []
    else
      let userId ← Database.get db (.str "userId")
      let isSuccess ← onLoginUser fd userId true
      if !isSuccess.truthy then
        sendProt fd midProtocolLogin s2cReDoLogin []
      else
        sendProt fd midProtocolLogin s2cCheckSignIN []

/-- `string.len`: the number of bytes of a string or of the notation of a number. -/
def stringLen : Value → Script ℕ
  | .str s => pure s.utf8ByteSize
  | .num n => pure n.repr.utf8ByteSize
  | v => Coroutine.error ("bad argument #1 to 'len' (string expected, got " ++ v.typename ++ ")")

/-- The account and the user created for a name that is not registered.  Returns the id of the
user. -/
def createAccount (accName accPwd : Value) : Script Value := do
  let userId ← GameUser.onRegisterUser accName
  let db ← Database.insert .account accName
  Database.set db (.str "accountPwd") accPwd
  Database.set db (.str "userId") userId
  Database.update db
  pure userId

/-- The handler of `ALogin_C2SRegAccount`.  Where the source returns nothing, this returns the
id of the user when one has been created. -/
def onRegister (fd : ℕ) (protTab : Table) : Script (Option Value) :=
  let accName := protTab.get (.str "accName")
  let accPwd := protTab.get (.str "accPwd")
  if !accName.truthy || !accPwd.truthy then do
    sendErrcode fd "SYS_UNKNOW_ERROR"
    pure none
  else do
    let nameLen ← stringLen accName
    let short ← if nameLen < 6 then pure true else do
      let pwdLen ← stringLen accPwd
      pure (decide (pwdLen < 6))
    if short then
      sendErrcode fd "M_REGISTER_LONGERR_ACC"
      pure none
    else
      let existing ← Database.exist .account accName
      if existing then
        sendProt fd midProtocolLogin s2cRegAccount [("isSuccess", .num 2)]
        pure none
      else
        let userId ← createAccount accName accPwd
        sendProt fd midProtocolLogin s2cRegAccount [("isSuccess", .num 1)]
        pure (some userId)

end Login
