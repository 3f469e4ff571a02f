import FWServer.Lobby.Client

/-!
# Creating rooms

`client.S2CCreatDesk` with the configurations of the games a parameter, served to its end.  What the script
calls for is answered by the outside in any way it may be.  A request is refused and changes nothing, or it
creates the room that it asks for.
-/

open Lua

namespace Lobby

/-! ### The outside -/

/-- Whether `n` is a border of `t`. -/
def isBorder (t : Table) (n : ℤ) : Bool :=
  decide (0 ≤ n) && (decide (n = 0) || decide (t.get (.num n) ≠ .nil)) &&
    decide (t.get (.num (n + 1)) = .nil)

/-- Whether a call may be answered so. -/
def mayAnswer : Query → Except String (List Value) → Bool
  | .createRoomRecord _, .ok [.tab _, .num roomid] => 100000 ≤ roomid && roomid ≤ 999999
  | .newservice _, .ok [.num _] => true
  | .update _, .ok [] => true
  | .pairs keys, .ok vs => vs.isPerm (keys.map Value.num)
  | .length t, .ok [.num n] => isBorder t n
  | .createRoomRecord _, .error _ => true
  | .newservice _, .error _ => true
  | .update _, .error _ => true
  | _, _ => false

/-- Answers a call with the next of the replies, if it may be answered so. -/
def answer (q : Query) :
    List (Except String (List Value)) →
      Option (Except String (List Value) × List (Except String (List Value)))
  | [] => none
  | r :: replies => if mayAnswer q r then some (r, replies) else none

/-- A coroutine of the lobby served with the replies. -/
abbrev Served : Type :=
  Coroutine.Service interface (List (Except String (List Value))) Unit

/-- Whether a request has been served to its end and its protocol has been sent. -/
def succeeded (assistId : ℕ) (x : Served) : Bool :=
  (match x.halt with
  | .returned () => true
  | _ => false) &&
  x.outputs.any fun
    | .prot _ mainId assistId' _ => mainId == midProtocolLobby && assistId' == assistId
    | _ => false

/-! ### Calls -/

section Calls

variable {s : State} {replies replies' : List (Except String (List Value))}

theorem answer_ok {q : Query} {vs : List Value} (h : answer q replies = some (.ok vs, replies')) :
  replies = .ok vs :: replies' ∧ mayAnswer q (.ok vs) = true
  := by
  cases replies with
  | nil => cases h
  | cons r replies =>
      rw [answer] at h
      split at h
      · next hmay =>
          cases h
          exact ⟨rfl, hmay⟩
      · cases h

theorem answer_cons {q : Query} {r : Except String (List Value)} (h : mayAnswer q r = true)
    (replies : List (Except String (List Value))) :
  answer q (r :: replies) = some (r, replies)
  := by rw [answer, if_pos h]

/-- A call that is not answered with values changes nothing. -/
theorem serve_ask_unchanged {α : Type} {q : Query} {k : List Value → Lobby α}
    (h : ∀ vs replies', answer q replies ≠ some (.ok vs, replies')) :
  ((ask q >>= k).serve answer s replies).state = s ∧
    ((ask q >>= k).serve answer s replies).outputs = []
  := by
  rw [ask, Coroutine.call_bind, Coroutine.serve]
  cases hanswer : answer q replies with
  | none => exact ⟨rfl, rfl⟩
  | some x =>
      obtain ⟨r, replies'⟩ := x
      cases r with
      | error e => exact ⟨rfl, rfl⟩
      | ok vs => exact absurd hanswer (h vs replies')

/-- A call that is answered with values goes on with them. -/
theorem serve_ask_answered {α : Type} {q : Query} {k : List Value → Lobby α} {vs : List Value}
    (h : answer q replies = some (.ok vs, replies')) :
  (ask q >>= k).serve answer s replies = (k vs).serve answer s replies'
  := by
  rw [ask, Coroutine.call_bind, Coroutine.serve, h]
  rfl

end Calls

namespace Configured

/-! ### The request -/

variable (games : Value → Option GameConfig)

/-- `roominfo.new` and `roominfo:ctor` -/
def newRoomInfo (gameid roomid : Value) : Lobby ℕ :=
  match games gameid with
  | none => Coroutine.error "attempt to index a nil value"
  | some game =>
      .read fun s : State => .write
        { s with
          rooms := Function.update s.rooms s.next (some
            { roomID := roomid
              gameID := gameid
              maxJuShu := .num (-1)
              curJuShu := .num 1
              baseScore := .num 0
              baseBeiLv := .num 1
              userTab := ∅
              ownerUserID := .num 0
              isPlaying := false
              maxPeople := -1
              roomPwd := .str ""
              config := ∅
              srvHandler := .nil
              scriptSrvPath := "roomlogic/" ++ game.gameName ++ "/init" })
          next := s.next + 1 } <| .ret s.next

/-- `g_gamelobby.newRoom` -/
def newRoom (ownerUserId gameId roomId : Value) : Lobby ℕ := do
  let handler := (← ask (.newservice "gamelogic/lobby/roomservice")).headD .nil
  let rinfo ← newRoomInfo games gameId roomId
  RoomInfo.setSrvHandler rinfo handler
  Data.addRoomInfo gameId roomId
  let room ← RoomInfo.self rinfo
  let s ← Coroutine.get
  skynetSend handler (.str "open")
    [.str "noret", s.lobbyhandler, .str room.scriptSrvPath, ownerUserId, gameId, roomId]
  pure rinfo

/-- The rest of `client.S2CCreatDesk` once the room has its record. -/
def createDesk (fd : ℕ) (userId : Value) (protTab : CreatDesk) (config : Config)
    (dbroom roomid : Value) : Lobby Unit := do
  let roominfo ← newRoom games userId protTab.gameId roomid
  RoomInfo.setRoomConfig roominfo (configTab config)
  RoomInfo.setMaxJuShu roominfo config.maxJuShu
  RoomInfo.setOwnerUserID roominfo userId
  RoomInfo.setBaseScore roominfo config.baseScore
  RoomInfo.setBaseBeiLv roominfo config.baseBeiLv
  RoomInfo.setIsPlaying roominfo false
  RoomInfo.setRoomPwd roominfo (protTab.pwd.orElse (.str ""))
  Data.addUserRoomInfo userId roomid roominfo
  RoomInfo.SaveToDataBase roominfo dbroom
  let room ← RoomInfo.self roominfo
  sendProt (some fd) midProtocolLobby s2cCreatDesk
    [("roomOwer", .val room.ownerUserID), ("roomId", .val room.roomID),
      ("gameId", .val room.gameID), ("config", .tab room.config)]

/-- The rest of `client.S2CCreatDesk` once the configuration has been found legal. -/
def recordDesk (fd : ℕ) (userId : Value) (protTab : CreatDesk) (config : Config) : Lobby Unit := do
  let created ← ask (.createRoomRecord userId)
  let dbroom := created.getD 0 .nil
  let roomid := created.getD 1 .nil
  if !dbroom.truthy then
    sendErrcode fd "M_LOBBY_CREATEROOM_TO_LIMITED"
  else
    createDesk games fd userId protTab config dbroom roomid

/-- The rest of `client.S2CCreatDesk` once the configuration has been chosen. -/
def checkedDesk (game : GameConfig) (fd : ℕ) (userId : Value) (protTab : CreatDesk) (config : Config) :
    Lobby Unit :=
  if !legal game config then
    sendErrcode fd "M_LOBBY_CREATEROOM_CONFIG_ERR"
  else
    recordDesk games fd userId protTab config

/-- The rest of `client.S2CCreatDesk` once the user and the game have been checked. -/
def chosenDesk (game : GameConfig) (fd : ℕ) (userId : Value) (protTab : CreatDesk) : Lobby Unit := do
  let config ← chooseConfig game protTab.config
  checkedDesk games game fd userId protTab config

/-- `client.S2CCreatDesk` -/
def S2CCreatDesk (users : GameUser.State Value ℕ) (fd : ℕ) (protTab : CreatDesk) : Lobby Unit :=
  match GameUser.getUserIdBySocketFd fd users with
  | none => sendErrcode fd "SYS_UNKNOW_ERROR"
  | some userId =>
      if !userId.truthy || userId ≠ protTab.userId then
        sendErrcode fd "SYS_UNKNOW_ERROR"
      else if !protTab.gameId.truthy then
        sendErrcode fd "M_LOBBY_CREATEROOM_CONFIG_ERR"
      else
        match games protTab.gameId with
        | none => sendErrcode fd "M_LOBBY_CREATEROOM_CONFIG_ERR"
        | some game => chosenDesk games game fd userId protTab

/-- With the games there are this is the handler of the lobby. -/
theorem S2CCreatDesk_gamelist :
  S2CCreatDesk gamelist = Lobby.S2CCreatDesk
  := by
  funext users fd protTab
  unfold S2CCreatDesk Lobby.S2CCreatDesk
  cases GameUser.getUserIdBySocketFd fd users with
  | none => rfl
  | some userId =>
      dsimp only
      congr 1
      split
      · next hfalsy =>
          have hnone : gamelist protTab.gameId = none := by
            unfold gamelist
            split
            · next h =>
                rw [h] at hfalsy
                cases hfalsy
            · rfl
          rw [hnone]
      · rfl

/-! ### What a request is answered -/

/-- What the client asks for. -/
def asked (protTab : CreatDesk) : Config :=
  protTab.config.getD ⟨.nil, .nil, .nil, .nil⟩

/-- The number of players of the room. -/
def players (game : GameConfig) (protTab : CreatDesk) : Value :=
  (asked protTab).maxPlayer.orElse ((game.maxPlayers.map Value.num).headD .nil)

/-- The order `pairs` visits the numbers of rounds in, which it is called for first. -/
def visited : List (Except String (List Value)) → List Value
  | .ok keys :: _ => keys
  | _ => []

/-- The replies from the one to `createRoomRecord` on. -/
def recordReplies (protTab : CreatDesk) (replies : List (Except String (List Value))) :
    List (Except String (List Value)) :=
  if (asked protTab).maxJuShu.truthy then replies else replies.tail

/-- What `createRoomRecord` returns. -/
def created (protTab : CreatDesk) (replies : List (Except String (List Value))) : List Value :=
  match recordReplies protTab replies with
  | .ok vs :: _ => vs
  | _ => []

/-- `dbroom` -/
def drawnRecord (protTab : CreatDesk) (replies : List (Except String (List Value))) : Value :=
  (created protTab replies).getD 0 .nil

/-- `roomid` -/
def drawnId (protTab : CreatDesk) (replies : List (Except String (List Value))) : Value :=
  (created protTab replies).getD 1 .nil

/-- The configuration with the number of rounds. -/
def chosen (game : GameConfig) (protTab : CreatDesk) (jushuNum : Value) : Config where
  maxJuShu := jushuNum
  maxPlayer := players game protTab
  baseScore := (asked protTab).baseScore.orElse (.num game.baseScore)
  baseBeiLv := (asked protTab).baseBeiLv.orElse (.num game.baseBeiLv)

/-- The number of rounds of the room. -/
def rounds (protTab : CreatDesk) (replies : List (Except String (List Value))) : Value :=
  if (asked protTab).maxJuShu.truthy then (asked protTab).maxJuShu else minJuShu (visited replies)

/-! ### The room -/

/-- The room that is created. -/
def roomOf (game : GameConfig) (userId : Value) (protTab : CreatDesk) (config : Config)
    (roomid handler : Value) : RoomInfo where
  roomID := roomid
  gameID := protTab.gameId
  maxJuShu := config.maxJuShu
  curJuShu := .num 1
  baseScore := config.baseScore
  baseBeiLv := config.baseBeiLv
  userTab := ∅
  ownerUserID := userId
  isPlaying := false
  maxPeople := -1
  roomPwd := protTab.pwd.orElse (.str "")
  config := configTab config
  srvHandler := handler
  scriptSrvPath := "roomlogic/" ++ game.gameName ++ "/init"

/-- The lobby with the room. -/
def withRoom (s : State) (info : RoomInfo) : State :=
  { s with
    rooms := Function.update s.rooms s.next (some info)
    next := s.next + 1
    allGameRoom := s.allGameRoom.insert info.gameID
      (((Data.roomtab s.allGameRoom info.gameID).getD ∅).erase info.roomID)
    allUserRoom := s.allUserRoom.insert info.ownerUserID
      (((Data.roomtab s.allUserRoom info.ownerUserID).getD ∅).insert info.roomID s.next) }

/-- The message that opens the service of the room. -/
def opening (s : State) (info : RoomInfo) : Message :=
  .send info.srvHandler (.str "open")
    [.str "noret", s.lobbyhandler, .str info.scriptSrvPath, info.ownerUserID, info.gameID, info.roomID]

/-- What `SaveToDataBase` sets. -/
def saved (dbroom : Value) (info : RoomInfo) : List Message :=
  [.set dbroom "gameId" (.val info.gameID), .set dbroom "maxPlayer" (.val info.roomID),
    .set dbroom "openNumPlayer" (.val .nil), .set dbroom "baseScore" (.val info.baseScore),
    .set dbroom "baseBeiLv" (.val info.baseBeiLv), .set dbroom "curJuShu" (.val (.num 0)),
    .set dbroom "maxJuShu" (.val info.maxJuShu), .set dbroom "ownUserId" (.val info.ownerUserID),
    .set dbroom "roomPwd" (.val (info.roomPwd.orElse (.str ""))),
    .set dbroom "playertab" (.tab info.userTab), .set dbroom "config" (.tab info.config)]

/-- The protocol for a room that has been created. -/
def announce (fd rinfo : ℕ) : Lobby Unit := do
  let room ← RoomInfo.self rinfo
  sendProt (some fd) midProtocolLobby s2cCreatDesk
    [("roomOwer", .val room.ownerUserID), ("roomId", .val room.roomID),
      ("gameId", .val room.gameID), ("config", .tab room.config)]

/-! ### What a request does -/

section Cases

variable {games : Value → Option GameConfig} {fd : ℕ} {userId : Value} {protTab : CreatDesk}
  {config : Config} {dbroom roomid : Value} {game : GameConfig} {s : State}
  {replies replies' : List (Except String (List Value))}

/-- Once the service of the room has been launched, the room is created and registered and its record is
set before the record is updated. -/
theorem createDesk_served (hgame : games protTab.gameId = some game) (hgameId : protTab.gameId ≠ .nil)
    (huserId : userId ≠ .nil) (hroomid : roomid ≠ .nil) {vs : List Value}
    (h : answer (.newservice "gamelogic/lobby/roomservice") replies = some (.ok vs, replies')) :
  let info := roomOf game userId protTab config roomid (vs.headD .nil)
  let y : Served :=
    (ask (.update dbroom) >>= fun _ => announce fd s.next).serve answer (withRoom s info) replies'
  (createDesk games fd userId protTab config dbroom roomid).serve answer s replies =
    { y with outputs := opening s info :: (saved dbroom info ++ y.outputs) }
  := by
  have hgametab : ¬ (protTab.gameId = .nil ∨ roomid = .nil) := not_or.mpr ⟨hgameId, hroomid⟩
  have husertab : ¬ (userId = .nil ∨ roomid = .nil) := not_or.mpr ⟨huserId, hroomid⟩
  intro info y
  dsimp only [y]
  rw [createDesk, newRoom, Coroutine.bind_bind, serve_ask_answered h]
  -- up to the update of the record the lobby runs undisturbed
  simp only [Coroutine.bind_bind, newRoomInfo, hgame, Data.addRoomInfo, if_neg hgametab,
    Data.addUserRoomInfo, if_neg husertab, RoomInfo.setSrvHandler, RoomInfo.assign,
    Coroutine.modify, Coroutine.get, Coroutine.read_bind, Coroutine.write_bind,
    Coroutine.ret_bind, Coroutine.emit_bind, Coroutine.serve, RoomInfo.self,
    Function.update_self, Function.update_idem, Option.map_some, skynetSend, Coroutine.send,
    Coroutine.pure_eq, RoomInfo.setRoomConfig, RoomInfo.setMaxJuShu,
    RoomInfo.setOwnerUserID, RoomInfo.setBaseScore, RoomInfo.setBaseBeiLv,
    RoomInfo.setIsPlaying, RoomInfo.setRoomPwd, RoomInfo.SaveToDataBase]
  rfl

/-- Whatever becomes of the update, the lobby has the room, and the record is not set again. -/
theorem announce_served (fd : ℕ) (dbroom : Value) (s t : State)
    (replies : List (Except String (List Value))) :
  let y : Served := (ask (.update dbroom) >>= fun _ => announce fd s.next).serve answer t replies
  y.state = t ∧ ∀ o ∈ y.outputs, ∀ h field v, o ≠ .set h field v
  := by
  intro y
  dsimp only [y]
  by_cases h : ∃ vs replies', answer (.update dbroom) replies = some (.ok vs, replies')
  · obtain ⟨vs, replies', h⟩ := h
    rw [serve_ask_answered h, announce, RoomInfo.self, Coroutine.read_bind, Coroutine.serve]
    cases t.rooms s.next with
    | none => exact ⟨rfl, fun o ho => absurd ho List.not_mem_nil⟩
    | some room =>
        use rfl
        intro o ho h field v
        rw [List.mem_singleton.mp ho]
        rintro ⟨⟩
  · obtain ⟨hstate, houtputs⟩ :=
      serve_ask_unchanged fun vs replies' hanswer => h ⟨vs, replies', hanswer⟩
    rw [hstate, houtputs]
    exact ⟨rfl, fun o ho => absurd ho List.not_mem_nil⟩

/-- A request that changes nothing and does not succeed. -/
structure Refused (s : State) (x : Served) : Prop where
  state : x.state = s
  failed : succeeded s2cCreatDesk x = false

/-- A request that creates a room: the configuration that has been chosen is legal, and the room is
registered and its record set. -/
structure Creates (game : GameConfig) (protTab : CreatDesk) (s : State)
    (replies : List (Except String (List Value))) (x : Served) : Prop where
  userId : protTab.userId.truthy = true
  gameId : protTab.gameId.truthy = true
  legal : legal game (chosen game protTab (rounds protTab replies)) = true
  roomId : (drawnId protTab replies).truthy = true
  served : ∃ handler outputs,
    let info := roomOf game protTab.userId protTab (chosen game protTab (rounds protTab replies))
      (drawnId protTab replies) handler
    x.state = withRoom s info ∧
      x.outputs = opening s info :: (saved (drawnRecord protTab replies) info ++ outputs) ∧
      ∀ o ∈ outputs, ∀ h field v, o ≠ .set h field v

/-- A request that is answered an error code is refused. -/
theorem refused_errcode (fd : ℕ) (code : String) (s : State)
    (replies : List (Except String (List Value))) :
  Refused s ((sendErrcode fd code).serve answer s replies)
  := ⟨rfl, rfl⟩

/-- A call is answered with values and goes on with them, or the request is refused. -/
theorem ask_cases (q : Query) (k : List Value → Lobby Unit) (s : State)
    (replies : List (Except String (List Value))) :
  Refused s ((ask q >>= k).serve answer s replies) ∨
    ∃ vs replies', replies = .ok vs :: replies' ∧ mayAnswer q (.ok vs) = true ∧
      (ask q >>= k).serve answer s replies = (k vs).serve answer s replies'
  := by
  by_cases h : ∃ vs replies', answer q replies = some (.ok vs, replies')
  · obtain ⟨vs, replies', h⟩ := h
    obtain ⟨hreplies, hmay⟩ := answer_ok h
    apply Or.inr
    use vs, replies', hreplies, hmay, serve_ask_answered h
  · obtain ⟨hstate, houtputs⟩ := (serve_ask_unchanged fun vs replies' hanswer =>
      h ⟨vs, replies', hanswer⟩ : ((ask q >>= k).serve answer s replies).state = s ∧ _)
    apply Or.inl
    use hstate
    rw [succeeded, houtputs, List.any_nil, Bool.and_false]

/-- A request for a game there is, of the user it names, goes on to choose a configuration. -/
theorem S2CCreatDesk_asked (games : Value → Option GameConfig) (users : GameUser.State Value ℕ) (fd : ℕ)
    (protTab : CreatDesk) (s : State) (replies : List (Except String (List Value))) :
  Refused s ((S2CCreatDesk games users fd protTab).serve answer s replies) ∨
    ∃ game, games protTab.gameId = some game ∧ protTab.userId.truthy = true ∧
      protTab.gameId.truthy = true ∧
      (S2CCreatDesk games users fd protTab).serve answer s replies =
        (chosenDesk games game fd protTab.userId protTab).serve answer s replies
  := by
  unfold S2CCreatDesk
  split
  · exact .inl (refused_errcode _ _ _ _)
  · next userId huser =>
      split
      · exact .inl (refused_errcode _ _ _ _)
      · next hsame =>
          rw [Bool.or_eq_true, not_or, Bool.not_eq_true', Bool.not_eq_false, decide_eq_true_eq,
            not_not] at hsame
          obtain ⟨htruthy, rfl⟩ := hsame
          split
          · exact .inl (refused_errcode _ _ _ _)
          · next hgameId =>
              rw [Bool.not_eq_true', Bool.not_eq_false] at hgameId
              split
              · exact .inl (refused_errcode _ _ _ _)
              · next game hgame => exact .inr ⟨game, hgame, htruthy, hgameId, rfl⟩

/-- Once the number of rounds is known, the rest of the request checks it with the configuration. -/
theorem chosenDesk_eq (games : Value → Option GameConfig) (game : GameConfig) (fd : ℕ) (userId : Value)
    (protTab : CreatDesk) :
  chosenDesk games game fd userId protTab =
    if (asked protTab).maxJuShu.truthy then
      checkedDesk games game fd userId protTab (chosen game protTab (asked protTab).maxJuShu)
    else
      ask (.pairs game.jushuLimit) >>= fun keys =>
        checkedDesk games game fd userId protTab (chosen game protTab (minJuShu keys))
  := by
  unfold chosenDesk chooseConfig
  dsimp only
  rw [show protTab.config.getD ⟨.nil, .nil, .nil, .nil⟩ = asked protTab from rfl]
  split
  · rfl
  · rw [Coroutine.bind_bind]
    rfl

theorem checkedDesk_cases (games : Value → Option GameConfig) (game : GameConfig) (fd : ℕ)
    (userId : Value) (protTab : CreatDesk) (config : Config) (s : State)
    (replies : List (Except String (List Value))) :
  Refused s ((checkedDesk games game fd userId protTab config).serve answer s replies) ∨
    legal game config = true ∧
      (checkedDesk games game fd userId protTab config).serve answer s replies =
        (recordDesk games fd userId protTab config).serve answer s replies
  := by
  unfold checkedDesk
  cases legal game config with
  | true => exact .inr ⟨rfl, rfl⟩
  | false => exact .inl (refused_errcode _ _ _ _)

/-- A configuration that has been chosen is legal, or the request is refused. -/
theorem chosenDesk_cases (games : Value → Option GameConfig) (game : GameConfig) (fd : ℕ)
    (userId : Value) (protTab : CreatDesk) (s : State) (replies : List (Except String (List Value))) :
  Refused s ((chosenDesk games game fd userId protTab).serve answer s replies) ∨
    legal game (chosen game protTab (rounds protTab replies)) = true ∧
      (chosenDesk games game fd userId protTab).serve answer s replies =
        (recordDesk games fd userId protTab (chosen game protTab (rounds protTab replies))).serve answer s
          (recordReplies protTab replies)
  := by
  rw [chosenDesk_eq]
  unfold rounds recordReplies
  cases (asked protTab).maxJuShu.truthy with
  | true => apply checkedDesk_cases
  | false =>
      rw [if_neg Bool.false_ne_true, if_neg Bool.false_ne_true, if_neg Bool.false_ne_true]
      rcases ask_cases (.pairs game.jushuLimit) _ s replies with hrefused | ⟨vs, replies', rfl, -, heq⟩
      · exact .inl hrefused
      · rw [heq]
        apply checkedDesk_cases

/-- A request that goes on to a room has been given a record and an id for it. -/
theorem recordDesk_cases (games : Value → Option GameConfig) (fd : ℕ) (userId : Value)
    (protTab : CreatDesk) (config : Config) (s : State) (replies : List (Except String (List Value))) :
  Refused s ((recordDesk games fd userId protTab config).serve answer s replies) ∨
    ∃ db roomid replies', replies = .ok [.tab db, .num roomid] :: replies' ∧
      (recordDesk games fd userId protTab config).serve answer s replies =
        (createDesk games fd userId protTab config (.tab db) (.num roomid)).serve answer s replies'
  := by
  unfold recordDesk
  rcases ask_cases (.createRoomRecord userId) _ s replies with hrefused | ⟨vs, replies', rfl, hmay, heq⟩
  · exact .inl hrefused
  · apply Or.inr
    unfold mayAnswer at hmay
    split at hmay
    · next db roomid hq hvs =>
        obtain rfl := Except.ok.inj hvs
        use db, roomid, replies', rfl, heq
    all_goals simp_all

/-- A room that has its record is created once its service has been launched. -/
theorem createDesk_cases (hgame : games protTab.gameId = some game) (hgameId : protTab.gameId ≠ .nil)
    (huserId : userId ≠ .nil) (hroomid : roomid ≠ .nil) :
  let x : Served := (createDesk games fd userId protTab config dbroom roomid).serve answer s replies
  Refused s x ∨ ∃ handler outputs,
    let info := roomOf game userId protTab config roomid handler
    x.state = withRoom s info ∧ x.outputs = opening s info :: (saved dbroom info ++ outputs) ∧
      ∀ o ∈ outputs, ∀ h field v, o ≠ .set h field v
  := by
  intro x
  have hcases : Refused s x ∨ ∃ vs replies', replies = .ok vs :: replies' ∧
      mayAnswer (.newservice "gamelogic/lobby/roomservice") (.ok vs) = true := by
    dsimp only [x]
    rw [createDesk, newRoom, Coroutine.bind_bind]
    apply (ask_cases _ _ s replies).imp_right
    rintro ⟨vs, replies', hreplies, hmay, -⟩
    use vs, replies', hreplies, hmay
  rcases hcases with hrefused | ⟨vs, replies', rfl, hmay⟩
  · exact .inl hrefused
  · apply Or.inr
    obtain ⟨hstate, houtputs⟩ := announce_served fd dbroom s
      (withRoom s (roomOf game userId protTab config roomid (vs.headD .nil))) replies'
    dsimp only [x]
    rw [createDesk_served hgame hgameId huserId hroomid (answer_cons hmay replies')]
    exact ⟨_, _, hstate, rfl, houtputs⟩

/-- A request is refused, or it creates a room. -/
theorem S2CCreatDesk_cases (games : Value → Option GameConfig) (users : GameUser.State Value ℕ) (fd : ℕ)
    (protTab : CreatDesk) (s : State) (replies : List (Except String (List Value))) :
  let x : Served := (S2CCreatDesk games users fd protTab).serve answer s replies
  Refused s x ∨ ∃ game, games protTab.gameId = some game ∧ Creates game protTab s replies x
  := by
  intro x
  dsimp only [x]
  rcases S2CCreatDesk_asked games users fd protTab s replies with
    hrefused | ⟨game, hgame, huserId, hgameId, heq⟩
  · exact .inl hrefused
  rw [heq]
  rcases chosenDesk_cases games game fd protTab.userId protTab s replies with hrefused | ⟨hlegal, heq⟩
  · exact .inl hrefused
  rw [heq]
  rcases recordDesk_cases games fd protTab.userId protTab
      (chosen game protTab (rounds protTab replies)) s (recordReplies protTab replies) with
    hrefused | ⟨db, roomid, replies', hreplies, heq⟩
  · exact .inl hrefused
  have hrecord : drawnRecord protTab replies = .tab db := by
    rw [drawnRecord, created, hreplies]
    rfl
  have hid : drawnId protTab replies = .num roomid := by
    rw [drawnId, created, hreplies]
    rfl
  have hroomid : Value.num roomid ≠ .nil := nofun
  rw [heq]
  rcases createDesk_cases hgame (Value.ne_nil_of_truthy hgameId) (Value.ne_nil_of_truthy huserId)
      hroomid with hrefused | hserved
  · exact .inl hrefused
  · refine .inr ⟨game, hgame, huserId, hgameId, hlegal, ?_, ?_⟩
    · rw [hid]
      rfl
    · rw [hrecord, hid]
      exact hserved

end Cases

end Configured

end Lobby
