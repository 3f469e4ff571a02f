import FWServer.Kernel.Coroutine
import FWServer.Lua.Value

/-!
# Rooms of the lobby

`gamelogic/lobby/roominfo.lua` and `gamelogic/lobby/data.lua`: the room objects, and the two
tables of `g_gamelobby` they are registered in, by user and by game.  The coroutines of the lobby
share these.  What the scripts take from elsewhere they call for: the database, the launcher of
services, and Lua itself where it leaves a choice open.
-/

open Lua

namespace Lobby

/-! ### The configuration of games -/

/-- An entry of `common/gameconfig/gamelist.lua`.  Of `jushuLimit` only the keys are read. -/
structure GameConfig where
  baseScore : ℤ
  baseBeiLv : ℤ
  jushuLimit : List ℤ
  maxPlayers : List ℤ
  gameName : String

/-- `common/gameconfig/gamelist.lua` -/
def gamelist : Value → Option GameConfig
  | .num 1001 => some ⟨0, 1, [8, 16], [2], "ErRenDDZ"⟩
  | _ => none

/-! ### The state and its interface -/

/-- A room object. -/
structure RoomInfo where
  roomID : Value
  gameID : Value
  maxJuShu : Value
  curJuShu : Value
  baseScore : Value
  baseBeiLv : Value
  userTab : Table
  ownerUserID : Value
  isPlaying : Bool
  maxPeople : ℤ
  roomPwd : Value
  config : Table
  srvHandler : Value
  scriptSrvPath : String

/-- Rooms by their ids.  A room is known by its number among the room objects. -/
abbrev RoomTab : Type :=
  AList fun _ : Value => ℕ

/-- The room objects, those created so far being numbered below `next`, and the tables of
`g_gamelobby`. -/
structure State where
  rooms : ℕ → Option RoomInfo
  next : ℕ
  /-- `g_gamelobby.m_allUserRoom` -/
  allUserRoom : AList fun _ : Value => RoomTab
  /-- `g_gamelobby.m_allGameRoom` -/
  allGameRoom : AList fun _ : Value => RoomTab
  lobbyhandler : Value

/-- What the scripts call for: a record of the database, an update of it, a new service, the order
in which `pairs` visits keys, and the length of a table. -/
inductive Query where
  | createRoomRecord (userId : Value)
  | update (dbroom : Value)
  | newservice (name : String)
  | pairs (keys : List ℤ)
  | length (t : Table)

/-- What a message carries under a name: a value, or a table. -/
inductive Field where
  | val (v : Value)
  | tab (t : Table)

/-- What the scripts put out: messages to clients and to services, and fields set in records. -/
inductive Message where
  | errcode (fd : ℕ) (code : String)
  | prot (fd : Option ℕ) (mainId assistId : ℕ) (data : List (String × Field))
  | send (handler : Value) (cmd : Value) (args : List Value)
  | set (dbroom : Value) (field : String) (v : Field)

/-- The interface of the lobby.  A reply is the list of the values returned, or an error. -/
abbrev interface : Interface where
  State := State
  Query := Query
  Reply := Except String (List Value)
  Output := Message
  Error := String

end Lobby

/-- A coroutine of the lobby. -/
abbrev Lobby (α : Type) : Type := Coroutine Lobby.interface α

namespace Lobby

/-- What a call makes of the reply. -/
def ofReply : Except String (List Value) → Lobby (List Value)
  | .ok vs => .ret vs
  | .error e => .raise e

/-- Calls for `q`. -/
def ask (q : Query) : Lobby (List Value) :=
  .call q ofReply

/-- `skynet.send(handler, "lua", cmd, …)` -/
def skynetSend (handler cmd : Value) (args : List Value) : Lobby Unit :=
  Coroutine.send (Message.send handler cmd args)

/-- The value of a global variable that no script assigns. -/
def unassigned (_name : String) : Value :=
  .nil

/-- `#t`, which may be any border of `t`. -/
def length (t : Table) : Lobby ℤ := do
  match ← ask (.length t) with
  | .num n :: _ => pure n
  | _ => Coroutine.error "object length is not an integer"

/-! ### Room objects -/

namespace RoomInfo

/-- The fields of the object `rinfo`. -/
def self (rinfo : ℕ) : Lobby RoomInfo :=
  .read fun s : State =>
    match s.rooms rinfo with
    | some room => .ret room
    | none => .raise "attempt to index a nil value"

/-- Assigns fields of the object `rinfo`. -/
def assign (rinfo : ℕ) (f : RoomInfo → RoomInfo) : Lobby Unit :=
  Coroutine.modify fun s : State =>
    { s with rooms := Function.update s.rooms rinfo ((s.rooms rinfo).map f) }

/-- `roominfo.new` and `roominfo:ctor` -/
def new (gameid roomid : Value) : Lobby ℕ :=
  match gamelist gameid with
  | none => Coroutine.error "attempt to index a nil value"
  | some game =>
      .read fun s : State => .write
        { s with
          rooms := Function.update s.rooms s.next (some
            { roomID := roomid
              gameID := gameid
              maxJuShu := .num (-1)
              curJuShu := .num 1
              baseScore := .num 0
              baseBeiLv := .num 1
              userTab := ∅
              ownerUserID := .num 0
              isPlaying := false
              maxPeople := -1
              roomPwd := .str ""
              config := ∅
              srvHandler := .nil
              scriptSrvPath := "roomlogic/" ++ game.gameName ++ "/init" })
          next := s.next + 1 } <| .ret s.next

/-- `roominfo:SaveToDataBase`.  A room has no field `maxPlayer`. -/
def SaveToDataBase (rinfo : ℕ) (dbroom : Value) : Lobby Unit := do
  let room ← self rinfo
  let set field v := Coroutine.send (Message.set dbroom field v)
  set "gameId" (.val room.gameID)
  set "maxPlayer" (.val room.roomID)
  set "openNumPlayer" (.val .nil)
  set "baseScore" (.val room.baseScore)
  set "baseBeiLv" (.val room.baseBeiLv)
  set "curJuShu" (.val (.num 0))
  set "maxJuShu" (.val room.maxJuShu)
  set "ownUserId" (.val room.ownerUserID)
  set "roomPwd" (.val (room.roomPwd.orElse (.str "")))
  set "playertab" (.tab room.userTab)
  set "config" (.tab room.config)
  let _ ← ask (.update dbroom)

def setSrvHandler (rinfo : ℕ) (handler : Value) : Lobby Unit :=
  assign rinfo fun room => { room with srvHandler := handler }

def setMaxJuShu (rinfo : ℕ) (num : Value) : Lobby Unit :=
  assign rinfo fun room => { room with maxJuShu := num }

def setOwnerUserID (rinfo : ℕ) (userid : Value) : Lobby Unit :=
  assign rinfo fun room => { room with ownerUserID := userid }

def setBaseScore (rinfo : ℕ) (score : Value) : Lobby Unit :=
  assign rinfo fun room => { room with baseScore := score }

def setBaseBeiLv (rinfo : ℕ) (beilv : Value) : Lobby Unit :=
  assign rinfo fun room => { room with baseBeiLv := beilv }

def setIsPlaying (rinfo : ℕ) (isplay : Bool) : Lobby Unit :=
  assign rinfo fun room => { room with isPlaying := isplay }

def setRoomPwd (rinfo : ℕ) (pwd : Value) : Lobby Unit :=
  assign rinfo fun room => { room with roomPwd := pwd }

def setRoomConfig (rinfo : ℕ) (configtab : Table) : Lobby Unit :=
  assign rinfo fun room => { room with config := configtab }

/-- `roominfo:addUserID`: seats a user behind the border of the seats, and returns a border of the
seats then. -/
def addUserID (rinfo : ℕ) (userid : Value) : Lobby ℤ := do
  let room ← self rinfo
  let last ← length room.userTab
  assign rinfo fun room => { room with userTab := room.userTab.set (.num (last + 1)) userid }
  let room ← self rinfo
  length room.userTab

/-- The first of the seats `1`, …, `n` the user has. -/
def findSeat (userTab : Table) (userid : Value) (n : ℤ) : Option ℤ :=
  ((List.range n.toNat).map fun i => (i : ℤ) + 1).find? fun i => userTab.get (.num i) = userid

/-- `roominfo:rmUserID` -/
def rmUserID (rinfo : ℕ) (userid : Value) : Lobby Unit :=
  if userid.truthy then do
    let room ← self rinfo
    match findSeat room.userTab userid room.maxPeople with
    | some i => assign rinfo fun room => { room with userTab := room.userTab.set (.num i) .nil }
    | none => pure ()
  else
    pure ()

/-- `roominfo:getUserIdTab` -/
def getUserIdTab (rinfo : ℕ) : Lobby (Table × ℤ) := do
  let room ← self rinfo
  let count ← length room.userTab
  pure (room.userTab, count)

end RoomInfo

/-! ### The registry -/

namespace Data

/-- `rooms[key]` -/
def roomtab (rooms : AList fun _ : Value => RoomTab) (key : Value) : Option RoomTab :=
  if key = .nil then none else rooms.lookup key

/-- The table `t` after `t[roomid] = roominfo`. -/
def put (t : RoomTab) (roomid : Value) (roominfo : Option ℕ) : RoomTab :=
  match roominfo with
  | some rinfo => t.insert roomid rinfo
  | none => t.erase roomid

/-- The value of the global variable `roominfo`, which no script assigns. -/
def globalRoominfo : Option ℕ :=
  none

/-- `data.addRoomInfo`, which has no parameter for the room: the `roominfo` it stores is the global
variable. -/
def addRoomInfo (gameid roomid : Value) : Lobby Unit :=
  if gameid = .nil ∨ roomid = .nil then
    Coroutine.error "table index is nil"
  else
    Coroutine.modify fun s : State =>
      let gametab := (roomtab s.allGameRoom gameid).getD ∅
      { s with allGameRoom := s.allGameRoom.insert gameid (put gametab roomid globalRoominfo) }

/-- `data.addUserRoomInfo` -/
def addUserRoomInfo (userid roomid : Value) (roominfo : ℕ) : Lobby Unit :=
  if userid = .nil ∨ roomid = .nil then
    Coroutine.error "table index is nil"
  else
    Coroutine.modify fun s : State =>
      let usertab := (roomtab s.allUserRoom userid).getD ∅
      { s with allUserRoom := s.allUserRoom.insert userid (put usertab roomid (some roominfo)) }

/-- `data.rmRoomInfo` -/
def rmRoomInfo (userid gameid roomid : Value) : Lobby (Option ℕ) :=
  .read fun s : State =>
    match roomtab s.allGameRoom gameid with
    | none => .raise "attempt to index a nil value (field '?')"
    | some gametab =>
        if roomid = .nil then
          .raise "table index is nil"
        else
          let allGameRoom := s.allGameRoom.insert gameid (put gametab roomid none)
          .write { s with allGameRoom := allGameRoom } <|
            match roomtab s.allUserRoom userid with
            | none => .raise "attempt to index a nil value (field '?')"
            | some usertab =>
                .write
                  { s with
                    allGameRoom := allGameRoom
                    allUserRoom := s.allUserRoom.insert userid (put usertab roomid none) } <|
                  .ret (gametab.lookup roomid)

/-- The rooms in `rooms[key]` when there is no room id, and else the one with that id. -/
def getRoomInfo (rooms : AList fun _ : Value => RoomTab) (key roomid : Value) : Lobby (List ℕ) :=
  match roomtab rooms key with
  | none => Coroutine.error "attempt to index a nil value (field '?')"
  | some t =>
      if roomid.truthy then pure (t.lookup roomid).toList
      else pure (t.entries.map fun e => e.2)

/-- `data.getRoomInfoByUserId` -/
def getRoomInfoByUserId (userid roomid : Value) : Lobby (List ℕ) :=
  .read fun s : State => getRoomInfo s.allUserRoom userid roomid

/-- `data.getRoomInfoByRoomId`, which has a parameter `gameid`: the `gameId` it reads is a global
variable. -/
def getRoomInfoByRoomId (_gameid roomid : Value) : Lobby (List ℕ) :=
  .read fun s : State => getRoomInfo s.allGameRoom (unassigned "gameId") roomid

end Data

end Lobby
