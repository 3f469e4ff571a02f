import FWServer.Lobby.RoomInfo
import FWServer.User.GameUser

/-!
# Requests to the lobby

`gamelogic/lobby/lobby.lua` and `gamelogic/lobby/client.lua`: the handlers of the requests to create
a room, to close it, to enter it and to leave it.

A handler is given the sessions of the users at the time of its request.
-/

open Lua

namespace Lobby

/-- `MID_Protocol_Lobby` -/
def midProtocolLobby : ℕ := 103

/-- `ALobby_S2CCreatDesk` -/
def s2cCreatDesk : ℕ := 202

/-- `ALobby_S2CReqJieSanDesk` -/
def s2cReqJieSanDesk : ℕ := 203

/-- `ALobby_S2CReqEnterDesk` -/
def s2cReqEnterDesk : ℕ := 204

/-- `g_protocol.sendErrcode` -/
def sendErrcode (fd : ℕ) (code : String) : Lobby Unit :=
  Coroutine.send (Message.errcode fd code)

/-- `g_protocol.sendProt` -/
def sendProt (fd : Option ℕ) (mainId assistId : ℕ) (data : List (String × Field)) : Lobby Unit :=
  Coroutine.send (Message.prot fd mainId assistId data)

/-- Raises the error of a method call on a list of rooms, which has no methods.  The scripts go on as
if the list were a room. -/
def method (_roomtab : List ℕ) (name : String) : Lobby ℕ :=
  Coroutine.error s!"attempt to call a nil value (method '{name}')"

/-! ### The rooms -/

/-- `g_gamelobby.newRoom` -/
def newRoom (ownerUserId gameId roomId : Value) : Lobby ℕ := do
  let handler := (← ask (.newservice "gamelogic/lobby/roomservice")).headD .nil
  let rinfo ← RoomInfo.new gameId roomId
  RoomInfo.setSrvHandler rinfo handler
  -- the room is handed over too, to a function that has no parameter for it
  Data.addRoomInfo gameId roomId
  let room ← RoomInfo.self rinfo
  let s ← Coroutine.get
  skynetSend handler (.str "open")
    [.str "noret", s.lobbyhandler, .str room.scriptSrvPath, ownerUserId, gameId, roomId]
  pure rinfo

/-- Sends to the services of the rooms. -/
def sendRooms (cmd : Value) (args : List Value) : List ℕ → Lobby Unit
  | [] => pure ()
  | rinfo :: rooms => do
      let room ← RoomInfo.self rinfo
      if room.srvHandler.truthy then
        skynetSend room.srvHandler cmd (.str "noret" :: args)
      sendRooms cmd args rooms

/-- `g_gamelobby.sendDataRoom` -/
def sendDataRoom (gameid roomid eventtype : Value) (args : List Value) : Lobby Unit := do
  let rinfotab ← Data.getRoomInfoByUserId gameid roomid
  sendRooms eventtype args rinfotab

/-- `g_gamelobby.closeRoom`, which reads a global variable `datatab` and hands over two of the three
arguments of `rmRoomInfo`. -/
def closeRoom (gameid roomid : Value) : Lobby Unit := do
  let rinfotab ← Data.getRoomInfoByRoomId gameid roomid
  sendRooms (.str "close") [unassigned "datatab"] rinfotab
  let _ ← Data.rmRoomInfo gameid roomid .nil

/-- `g_gamelobby.sendRoomUserEnter`, which hands over a global variable `userid` first. -/
def sendRoomUserEnter (gameid roomid seatNo : Value) : Lobby Unit :=
  sendDataRoom (unassigned "userid") gameid roomid [.str "userEnter", seatNo]

/-- `g_gamelobby.sendRoomUserLeave` -/
def sendRoomUserLeave (gameid roomid seatNo : Value) : Lobby Unit :=
  sendDataRoom (unassigned "userid") gameid roomid [.str "userLeave", seatNo]

/-! ### The requests -/

/-- The configuration a client may ask for. -/
structure Config where
  maxJuShu : Value
  maxPlayer : Value
  baseScore : Value
  baseBeiLv : Value

/-- `protTab` of a request to create a room. -/
structure CreatDesk where
  userId : Value
  gameId : Value
  pwd : Value
  config : Option Config

/-- `protTab` of a request about a room. -/
structure DeskRequest where
  userId : Value
  gameId : Value
  roomId : Value

/-- The number of rounds chosen for a client that has chosen none, from the keys of `jushuLimit` in
the order they are visited: `jushu` is a global variable, so that it is the last one. -/
def minJuShu (keys : List Value) : Value :=
  keys.foldl (fun minJuShu num =>
    if !(unassigned "jushu").truthy then num
    else match num, minJuShu with
      | .num n, .num m => if n < m then num else minJuShu
      | _, _ => minJuShu) .nil

/-- The configuration of a new room: what the client asks for, and else what the game has. -/
def chooseConfig (game : GameConfig) (config : Option Config) : Lobby Config := do
  let config := config.getD ⟨.nil, .nil, .nil, .nil⟩
  let jushuNum ← if config.maxJuShu.truthy then pure config.maxJuShu else do
    let keys ← ask (.pairs game.jushuLimit)
    pure (minJuShu keys)
  pure
    { maxJuShu := jushuNum
      maxPlayer := config.maxPlayer.orElse ((game.maxPlayers.map Value.num).headD .nil)
      baseScore := config.baseScore.orElse (.num game.baseScore)
      baseBeiLv := config.baseBeiLv.orElse (.num game.baseBeiLv) }

/-- Whether a configuration is one the game allows. -/
def legal (game : GameConfig) (config : Config) : Bool :=
  (game.jushuLimit.map Value.num).contains config.maxJuShu &&
    (game.maxPlayers.map Value.num).contains config.maxPlayer

/-- `toConfigTab` -/
def configTab (config : Config) : Table :=
  Table.ofFields [("maxJuShu", config.maxJuShu), ("maxPlayer", config.maxPlayer),
    ("baseScore", config.baseScore), ("baseBeiLv", config.baseBeiLv)]

theorem configTab_maxPlayer (config : Config) :
  (configTab config).get (.str "maxPlayer") = config.maxPlayer
  := by simp [configTab, Table.ofFields]

/-- The rest of `client.S2CCreatDesk` once the room has its record. -/
def createDesk (fd : ℕ) (userId : Value) (protTab : CreatDesk) (config : Config)
    (dbroom roomid : Value) : Lobby Unit := do
  let roominfo ← newRoom userId protTab.gameId roomid
  RoomInfo.setRoomConfig roominfo (configTab config)
  RoomInfo.setMaxJuShu roominfo config.maxJuShu
  RoomInfo.setOwnerUserID roominfo userId
  RoomInfo.setBaseScore roominfo config.baseScore
  RoomInfo.setBaseBeiLv roominfo config.baseBeiLv
  RoomInfo.setIsPlaying roominfo false
  RoomInfo.setRoomPwd roominfo (protTab.pwd.orElse (.str ""))
  Data.addUserRoomInfo userId roomid roominfo
  RoomInfo.SaveToDataBase roominfo dbroom
  let room ← RoomInfo.self roominfo
  sendProt (some fd) midProtocolLobby s2cCreatDesk
    [("roomOwer", .val room.ownerUserID), ("roomId", .val room.roomID),
      ("gameId", .val room.gameID), ("config", .tab room.config)]

/-- `client.S2CCreatDesk` -/
def S2CCreatDesk (users : GameUser.State Value ℕ) (fd : ℕ) (protTab : CreatDesk) : Lobby Unit :=
  match GameUser.getUserIdBySocketFd fd users with
  | none => sendErrcode fd "SYS_UNKNOW_ERROR"
  | some userId =>
      if !userId.truthy || userId ≠ protTab.userId then
        sendErrcode fd "SYS_UNKNOW_ERROR"
      else
        match gamelist protTab.gameId with
        | none => sendErrcode fd "M_LOBBY_CREATEROOM_CONFIG_ERR"
        | some game => do
            let config ← chooseConfig game protTab.config
            if !legal game config then
              sendErrcode fd "M_LOBBY_CREATEROOM_CONFIG_ERR"
            else
              let created ← ask (.createRoomRecord userId)
              let dbroom := created.getD 0 .nil
              let roomid := created.getD 1 .nil
              if !dbroom.truthy then
                sendErrcode fd "M_LOBBY_CREATEROOM_TO_LIMITED"
              else
                createDesk fd userId protTab config dbroom roomid

/-- What the handlers of requests about a room begin with: the user of the connection, when the
request names that user, a room and a known game. -/
def requestUser (users : GameUser.State Value ℕ) (fd : ℕ) (protTab : DeskRequest) :
    Option Value :=
  match GameUser.getUserIdBySocketFd fd users with
  | none => none
  | some userId =>
      if !userId.truthy || userId ≠ protTab.userId then none
      else if !protTab.roomId.truthy || (gamelist protTab.gameId).isNone then none
      else some userId

/-- `client.S2CReqJieSanDesk` -/
def S2CReqJieSanDesk (users : GameUser.State Value ℕ) (fd : ℕ) (protTab : DeskRequest) :
    Lobby Unit :=
  match requestUser users fd protTab with
  | none => sendErrcode fd "SYS_UNKNOW_ERROR"
  | some userId => do
      let roominfo ← Data.getRoomInfoByRoomId protTab.gameId protTab.roomId
      let room ← RoomInfo.self (← method roominfo "getOwnerUserID")
      if room.ownerUserID ≠ userId then
        sendErrcode fd "M_LOBBY_DELETEROOM_USER_ERR"
      else if room.isPlaying then
        sendErrcode fd "M_LOBBY_DELETEROOM_PLAYING"
      else
        closeRoom protTab.gameId protTab.roomId
        -- `FGDBroom.remove`, which calls the service `redis`, a global variable
        let () ← Coroutine.error "dest address type (nil) must be a string or number."
        sendProt (some fd) midProtocolLobby s2cReqJieSanDesk
          [("roomId", .val protTab.roomId), ("gameId", .val protTab.gameId)]

/-- Sends the protocol to the users in the seats `1`, …, `userCount`. -/
def sendSeats (users : GameUser.State Value ℕ) (userTab : Table) (assistId : ℕ)
    (data : List (String × Field)) (userCount : ℤ) : Lobby Unit :=
  (List.range userCount.toNat).forM fun i =>
    sendProt (GameUser.getSocketFdByUserId (userTab.get (.num (i + 1))) users)
      midProtocolLobby assistId data

/-- `client.S2CReqEnterDesk` -/
def S2CReqEnterDesk (users : GameUser.State Value ℕ) (fd : ℕ) (protTab : DeskRequest) :
    Lobby Unit :=
  match requestUser users fd protTab with
  | none => sendErrcode fd "SYS_UNKNOW_ERROR"
  | some userId => do
      let roominfo ← Data.getRoomInfoByRoomId protTab.gameId protTab.roomId
      let rinfo ← method roominfo "getUserIdTab"
      let (userTab, userCount) ← RoomInfo.getUserIdTab rinfo
      let findSeatNo := RoomInfo.findSeat userTab userId userCount
      let room ← RoomInfo.self rinfo
      if findSeatNo.isNone && room.isPlaying then
        sendErrcode fd "M_LOBBY_ENTERROOM_PLAYING"
      else if findSeatNo.isNone && decide (userCount ≥ room.maxPeople) then
        sendErrcode fd "M_LOBBY_ENTERROOM_TO_LIMITED"
      else
        let seatNo ← match findSeatNo with
          | some seatNo => pure seatNo
          | none => RoomInfo.addUserID rinfo userId
        -- the list of the users is the table the user has just been added to
        let room ← RoomInfo.self rinfo
        sendSeats users room.userTab s2cReqEnterDesk
          [("roomId", .val protTab.gameId), ("gameId", .val protTab.gameId),
            ("userId", .val userId), ("seatNo", .val (.num seatNo))] userCount
        sendRoomUserEnter protTab.gameId protTab.roomId (.num seatNo)

/-- `client.S2CReqLeaveDesk`, which asks for a new protocol by a field of the global variable
`g_protdef`, and goes on with two more, `userCount` and `userTab`. -/
def S2CReqLeaveDesk (users : GameUser.State Value ℕ) (fd : ℕ) (protTab : DeskRequest) :
    Lobby Unit :=
  match requestUser users fd protTab with
  | none => sendErrcode fd "SYS_UNKNOW_ERROR"
  | some userId => do
      let roomtab ← Data.getRoomInfoByUserId userId protTab.roomId
      match roomtab.head? with
      | none => sendErrcode fd "SYS_UNKNOW_ERROR"
      | some rinfo =>
          let () ← Coroutine.error "attempt to index a nil value (global 'g_protdef')"
          let () ← Coroutine.error "'for' limit must be a number"
          sendRoomUserLeave protTab.gameId protTab.roomId (unassigned "findSeatNo")
          RoomInfo.rmUserID rinfo userId

end Lobby
