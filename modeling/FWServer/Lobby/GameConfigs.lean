import FWServer.Db.DbTable
import FWServer.Lobby.Registry

/-!
# Rooms of any game

`client.S2CCreatDesk` and `roominfo:SaveToDataBase` with the configurations of the games a parameter.  A
room that is created has a number of rounds and of players that the game allows, and one chosen for the
client is the last that `pairs` visits rather than the smallest.  The record of the room has the room's id
for its number of players.
-/

open Lua

namespace Lobby.Configured

/-! ### The record of a room -/

/-- What the field of a room's record holds once a value has been set: the default for a value that is
not true. -/
def stored (field : String) : Field → Field
  | .val v => .val (v.orElse ((dbtable .room).detail.get (.str field)))
  | .tab t => .tab t

/-- What was last set in the field of the record. -/
def written (dbroom : Value) (field : String) (outputs : List Message) : Option Field :=
  (outputs.filterMap fun
    | .set h f v => if h = dbroom ∧ f = field then some (stored field v) else none
    | _ => none).getLast?

/-- The fields of the record that are named after what they hold of a room. -/
def fields (info : RoomInfo) : List (String × Value) :=
  [("gameId", info.gameID), ("maxPlayer", info.config.get (.str "maxPlayer")),
    ("maxJuShu", info.maxJuShu), ("baseScore", info.baseScore), ("baseBeiLv", info.baseBeiLv),
    ("ownUserId", info.ownerUserID), ("roomPwd", info.roomPwd)]

/-- A room honours the configuration of its game, and its record is that of the room. -/
structure Honours (game : GameConfig) (protTab : CreatDesk) (dbroom : Value)
    (outputs : List Message) (info : RoomInfo) : Prop where
  rounds : ∃ n ∈ game.jushuLimit, info.maxJuShu = .num n
  seats : ∃ n ∈ game.maxPlayers, info.config.get (.str "maxPlayer") = .num n
  smallest : (asked protTab).maxJuShu.truthy = false →
    ∃ n ∈ game.jushuLimit, info.maxJuShu = .num n ∧ ∀ m ∈ game.jushuLimit, n ≤ m
  record : ∀ f ∈ fields info, written dbroom f.1 outputs = some (.val f.2)

/-- The client asks for a number of rounds or `pairs` visits the smallest last, and the id drawn for the
room is its number of players. -/
structure Fits (game : GameConfig) (protTab : CreatDesk)
    (replies : List (Except String (List Value))) : Prop where
  smallest : (asked protTab).maxJuShu.truthy = false →
    ∃ n, (visited replies).getLast? = some (.num n) ∧ ∀ m ∈ game.jushuLimit, n ≤ m
  seats : drawnId protTab replies = players game protTab

/-- A request of a user for a game, with numbers of rounds and of players to choose from, that asks for no
number of players the game does not allow. -/
structure Admits (users : GameUser.State Value ℕ) (fd : ℕ) (protTab : CreatDesk) (game : GameConfig) :
    Prop where
  user : GameUser.getUserIdBySocketFd fd users = some protTab.userId
  userId : protTab.userId.truthy = true
  gameId : protTab.gameId.truthy = true
  jushuLimit : game.jushuLimit ≠ []
  maxPlayers : game.maxPlayers ≠ []
  maxPlayer : (asked protTab).maxPlayer.truthy = true →
    (asked protTab).maxPlayer ∈ game.maxPlayers.map Value.num

/-! ### What the record holds -/

/-- Messages that set nothing leave the record as it is. -/
theorem written_saved (s : State) (info : RoomInfo) (dbroom : Value) (field : String)
    {outputs : List Message} (h : ∀ o ∈ outputs, ∀ h field v, o ≠ .set h field v) :
  written dbroom field (opening s info :: (saved dbroom info ++ outputs)) =
    written dbroom field (saved dbroom info)
  := by
  have hnone : (outputs.filterMap fun
      | .set h f v => if h = dbroom ∧ f = field then some (stored field v) else none
      | _ => none) = [] := by
    rw [List.filterMap_eq_nil_iff]
    intro o ho
    split
    · next h' f v => exact absurd rfl (h _ ho h' f v)
    · rfl
  unfold written
  rw [List.filterMap_cons, opening]
  dsimp only
  rw [List.filterMap_append, hnone, List.append_nil]

/-- A value that is true is stored as it is. -/
theorem stored_of_truthy (field : String) {v : Value} (h : v.truthy = true) :
  stored field (.val v) = .val v
  := by rw [stored, Value.orElse_of_truthy h]

/-- The record holds the fields of the room under their names, but for the id in the place of the number of
players. -/
theorem saved_fields (s : State) {dbroom : Value} {info : RoomInfo} (hgameID : info.gameID.truthy = true)
    (hroomID : info.roomID.truthy = true) (hmaxJuShu : info.maxJuShu.truthy = true)
    (hbaseScore : info.baseScore.truthy = true) (hbaseBeiLv : info.baseBeiLv.truthy = true)
    (howner : info.ownerUserID.truthy = true) (hpwd : info.roomPwd.truthy = true)
    {outputs : List Message} (h : ∀ o ∈ outputs, ∀ h field v, o ≠ .set h field v) :
  (∀ f ∈ fields info,
      written dbroom f.1 (opening s info :: (saved dbroom info ++ outputs)) = some (.val f.2)) ↔
    info.roomID = info.config.get (.str "maxPlayer")
  := by
  have hsaved : ∀ field, written dbroom field (opening s info :: (saved dbroom info ++ outputs)) =
      written dbroom field (saved dbroom info) :=
    fun field => written_saved s info dbroom field h
  simp only [hsaved]
  unfold fields
  simp [written, saved, stored_of_truthy, *]

/-! ### The choice of a configuration -/

/-- The number of rounds chosen for the client is the last one visited. -/
theorem minJuShu_append (keys : List Value) (num : Value) :
  minJuShu (keys ++ [num]) = num
  := by
  rw [minJuShu, List.foldl_append]
  rfl

theorem minJuShu_eq_some_iff {keys : List Value} {n : ℤ} :
  minJuShu keys = .num n ↔ keys.getLast? = some (.num n)
  := by
  rcases keys.eq_nil_or_concat with rfl | ⟨keys, num, rfl⟩
  · exact iff_of_false nofun nofun
  · rw [List.concat_eq_append, minJuShu_append, List.getLast?_concat, Option.some_inj]

/-- A configuration that is legal has numbers of rounds and of players that the game allows. -/
theorem legal_iff {game : GameConfig} {config : Config} :
  legal game config = true ↔
    (∃ n ∈ game.jushuLimit, config.maxJuShu = .num n) ∧
      ∃ n ∈ game.maxPlayers, config.maxPlayer = .num n
  := by
  rw [legal, Bool.and_eq_true, List.contains_iff_mem, List.contains_iff_mem, List.mem_map, List.mem_map]
  simp only [eq_comm]

/-! ### Rooms that are created -/

theorem orElse_truthy (v : Value) {w : Value} (h : w.truthy = true) :
  (v.orElse w).truthy = true
  := by
  unfold Value.orElse
  split
  · assumption
  · exact h

/-- A number of rounds that is legal is the smallest when it has not been asked for precisely when `pairs`
visits the smallest last. -/
theorem smallest_iff {game : GameConfig} {protTab : CreatDesk}
    {replies : List (Except String (List Value))}
    (hlegal : ∃ n ∈ game.jushuLimit, rounds protTab replies = .num n)
    (htruthy : (asked protTab).maxJuShu.truthy = false) :
  (∃ n ∈ game.jushuLimit, rounds protTab replies = .num n ∧ ∀ m ∈ game.jushuLimit, n ≤ m) ↔
    ∃ n, (visited replies).getLast? = some (.num n) ∧ ∀ m ∈ game.jushuLimit, n ≤ m
  := by
  have hrounds : rounds protTab replies = minJuShu (visited replies) := by
    rw [rounds, htruthy, if_neg Bool.false_ne_true]
  rw [hrounds] at hlegal ⊢
  constructor
  · rintro ⟨n, -, hn, hleast⟩
    use n, minJuShu_eq_some_iff.mp hn
  · rintro ⟨n, hn, hleast⟩
    obtain ⟨k, hk, hnum⟩ := hlegal
    have hn' := minJuShu_eq_some_iff.mpr hn
    obtain rfl := Value.num.inj (hnum.symm.trans hn')
    use k, hk, hn'

/-- What a request that creates a room leaves: the room with the configuration that has been chosen, and its
record as `SaveToDataBase` sets it. -/
theorem room_of_creates {games : Value → Option GameConfig} {users : GameUser.State Value ℕ} {fd : ℕ}
    {protTab : CreatDesk} {game : GameConfig} (hgame : games protTab.gameId = some game) {s : State}
    {replies : List (Except String (List Value))}
    (h : ((S2CCreatDesk games users fd protTab).serve answer s replies).state.next ≠ s.next) :
  let x : Served := (S2CCreatDesk games users fd protTab).serve answer s replies
  let config := chosen game protTab (rounds protTab replies)
  legal game config = true ∧ ∃ handler,
    let info := roomOf game protTab.userId protTab config (drawnId protTab replies) handler
    x.state.rooms s.next = some info ∧
      ((∀ f ∈ fields info, written (drawnRecord protTab replies) f.1 x.outputs = some (.val f.2)) ↔
        drawnId protTab replies = players game protTab)
  := by
  intro x config
  rcases S2CCreatDesk_cases games users fd protTab s replies with ⟨hstate, -⟩ | ⟨game', hgame', hcreates⟩
  · exact absurd (congrArg State.next hstate) h
  · obtain rfl := Option.some.inj (hgame.symm.trans hgame')
    obtain ⟨handler, outputs, hstate, houtputs, hset⟩ := hcreates.served
    use hcreates.legal, handler
    constructor
    · dsimp only [x]
      rw [hstate]
      apply rooms_withRoom
    · obtain ⟨⟨n, -, hn⟩, -⟩ := legal_iff.mp hcreates.legal
      have hmaxJuShu : (chosen game protTab (rounds protTab replies)).maxJuShu.truthy = true := by
        rw [hn]
        rfl
      dsimp only [x]
      rw [houtputs]
      apply (saved_fields s hcreates.gameId hcreates.roomId hmaxJuShu (orElse_truthy _ rfl)
        (orElse_truthy _ rfl) hcreates.userId (orElse_truthy _ rfl) hset).trans
      rw [roomOf, configTab_maxPlayer]
      rfl

/-! ### Requests that ask for no number of rounds -/

section Admitted

variable {games : Value → Option GameConfig} {users : GameUser.State Value ℕ} {fd : ℕ}
  {protTab : CreatDesk} {game : GameConfig}

theorem Admits.chosenDesk (h : Admits users fd protTab game) (hgame : games protTab.gameId = some game) :
  S2CCreatDesk games users fd protTab = chosenDesk games game fd protTab.userId protTab
  := by
  unfold S2CCreatDesk
  rw [h.user, hgame]
  dsimp only
  rw [h.userId, h.gameId, if_neg, if_neg]
  · exact Bool.false_ne_true
  · rw [Bool.not_true, Bool.false_or, decide_eq_true_eq, not_not]

/-- The number of players is one that the game allows. -/
theorem Admits.players_mem (h : Admits users fd protTab game) :
  players game protTab ∈ game.maxPlayers.map Value.num
  := by
  unfold players Value.orElse
  split
  · next htruthy => apply h.maxPlayer htruthy
  · obtain ⟨n, rest, hcons⟩ := List.exists_cons_of_ne_nil h.maxPlayers
    rw [hcons]
    apply List.mem_cons_self

/-- A number of rounds that is visited last is one that the game allows. -/
theorem Admits.minJuShu_mem (h : Admits users fd protTab game) {keys : List Value}
    (hkeys : keys.isPerm (game.jushuLimit.map Value.num) = true) :
  minJuShu keys ∈ game.jushuLimit.map Value.num
  := by
  have hperm := List.isPerm_iff.mp hkeys
  rcases keys.eq_nil_or_concat with rfl | ⟨keys, num, rfl⟩
  · exact absurd (List.map_eq_nil_iff.mp hperm.nil_eq.symm) h.jushuLimit
  · rw [List.concat_eq_append] at hperm ⊢
    rw [minJuShu_append]
    apply hperm.mem_iff.mp
    apply List.mem_append_right _ (List.mem_singleton_self num)

/-- A room that has its record is created if its service is launched and the record is updated. -/
theorem createDesk_succeeds {fd : ℕ} {userId : Value} {config : Config} {dbroom roomid : Value}
    (hgame : games protTab.gameId = some game) (hgameId : protTab.gameId ≠ .nil) (huserId : userId ≠ .nil)
    (hroomid : roomid ≠ .nil) (s : State) (handler : ℤ) :
  succeeded s2cCreatDesk ((createDesk games fd userId protTab config dbroom roomid).serve answer s
    [.ok [.num handler], .ok []]) = true
  := by
  have hlaunched : mayAnswer (.newservice "gamelogic/lobby/roomservice") (.ok [.num handler]) = true := rfl
  have hupdated : mayAnswer (.update dbroom) (.ok []) = true := rfl
  rw [createDesk_served hgame hgameId huserId hroomid (answer_cons hlaunched _),
    serve_ask_answered (answer_cons hupdated _), announce, RoomInfo.self, Coroutine.read_bind,
    Coroutine.serve]
  dsimp only [withRoom]
  rw [Function.update_self, succeeded, Bool.and_eq_true, List.any_cons, List.any_append]
  use rfl
  rw [Bool.or_eq_true, Bool.or_eq_true]
  apply Or.inr
  apply Or.inr
  rfl

/-- A request that asks for no number of rounds creates a room, in whatever order `pairs` visits them. -/
theorem Admits.succeeds (h : Admits users fd protTab game) (hgame : games protTab.gameId = some game)
    (htruthy : (asked protTab).maxJuShu.truthy = false) (s : State) {keys : List Value}
    (hkeys : keys.isPerm (game.jushuLimit.map Value.num) = true) (db : ℕ) (handler : ℤ) {roomid : ℤ}
    (hid : mayAnswer (.createRoomRecord protTab.userId) (.ok [.tab db, .num roomid]) = true) :
  succeeded s2cCreatDesk ((S2CCreatDesk games users fd protTab).serve answer s
    [.ok keys, .ok [.tab db, .num roomid], .ok [.num handler], .ok []]) = true
  := by
  have hlegal : legal game (chosen game protTab (minJuShu keys)) = true := by
    rw [legal, Bool.and_eq_true, List.contains_iff_mem, List.contains_iff_mem]
    use h.minJuShu_mem hkeys
    apply h.players_mem
  have hpairs : mayAnswer (.pairs game.jushuLimit) (.ok keys) = true := hkeys
  rw [h.chosenDesk hgame, chosenDesk_eq, htruthy, if_neg Bool.false_ne_true,
    serve_ask_answered (answer_cons hpairs _), checkedDesk, hlegal, if_neg nofun, recordDesk,
    serve_ask_answered (answer_cons hid _)]
  dsimp only
  rw [if_neg nofun]
  apply createDesk_succeeds hgame (Value.ne_nil_of_truthy h.gameId) (Value.ne_nil_of_truthy h.userId)
  exact nofun

end Admitted

/-- A room that is created honours the configuration of its game, and its record is that of the room,
precisely when the client asks for a number of rounds or `pairs` visits the smallest last, and the id
drawn for the room is its number of players.  When the client does not ask for a number of rounds, the
request does not fail for it. -/
theorem configuration_honoured_iff (games : Value → Option GameConfig) (users : GameUser.State Value ℕ)
    (fd : ℕ) (protTab : CreatDesk) (game : GameConfig) (hgame : games protTab.gameId = some game)
    (s : State) :
  (∀ replies, let x : Served := (S2CCreatDesk games users fd protTab).serve answer s replies
    x.state.next ≠ s.next →
      ((∃ info, x.state.rooms s.next = some info ∧
        Honours game protTab (drawnRecord protTab replies) x.outputs info) ↔ Fits game protTab replies)) ∧
  (Admits users fd protTab game → (asked protTab).maxJuShu.truthy = false →
    ∀ keys db roomid handler, keys.isPerm (game.jushuLimit.map Value.num) = true →
      100000 ≤ roomid → roomid ≤ 999999 →
      succeeded s2cCreatDesk ((S2CCreatDesk games users fd protTab).serve answer s
        [.ok keys, .ok [.tab db, .num roomid], .ok [.num handler], .ok []]) = true)
  := by
  constructor
  · intro replies x hcreates
    obtain ⟨hlegal, handler, hroom, hrecord⟩ := room_of_creates hgame hcreates
    obtain ⟨hrounds, hseats⟩ := legal_iff.mp hlegal
    constructor
    · rintro ⟨info, hinfo, honours⟩
      obtain rfl := Option.some.inj (hroom.symm.trans hinfo)
      constructor
      · intro htruthy
        apply (smallest_iff hrounds htruthy).mp (honours.smallest htruthy)
      · apply hrecord.mp honours.record
    · rintro ⟨hsmallest, hid⟩
      refine ⟨_, hroom, ?_⟩
      constructor
      · exact hrounds
      · rw [roomOf, configTab_maxPlayer]
        exact hseats
      · intro htruthy
        apply (smallest_iff hrounds htruthy).mpr (hsmallest htruthy)
      · apply hrecord.mpr hid
  · intro hadmits htruthy keys db roomid handler hkeys hge hle
    apply hadmits.succeeds hgame htruthy s hkeys db handler
    unfold mayAnswer
    rw [Bool.and_eq_true, decide_eq_true_eq, decide_eq_true_eq]
    use hge

/-- A user asks for a room of game 1001 and leaves the configuration to the lobby. -/
def plainDesk : CreatDesk :=
  ⟨.num 7, .num 1001, .nil, none⟩

/-- A game of 123456 players. -/
def largeGame : GameConfig :=
  ⟨0, 1, [8, 16], [123456], "Large"⟩

/-- The replies when `pairs` visits the numbers of rounds in this order and the id of the room is 123456. -/
def repliesFor (keys : List Value) : List (Except String (List Value)) :=
  [.ok keys, .ok [.tab 0, .num 123456], .ok [.num 9], .ok []]

theorem configuration_honoured_large :
  let x : Served := (S2CCreatDesk (fun _ => some largeGame) oneUser 5 plainDesk).serve answer noRooms.lobby
    (repliesFor [.num 16, .num 8])
  succeeded s2cCreatDesk x = true ∧
    ∃ info, x.state.rooms 0 = some info ∧ Honours largeGame plainDesk (.tab 0) x.outputs info
  := by
  have hgame : (fun _ : Value => some largeGame) plainDesk.gameId = some largeGame := rfl
  have hhonoured := configuration_honoured_iff (fun _ => some largeGame) oneUser 5 plainDesk largeGame hgame
    noRooms.lobby
  have hadmits : Admits oneUser 5 plainDesk largeGame := ⟨rfl, rfl, rfl, nofun, nofun, nofun⟩
  have hkeys : [Value.num 16, .num 8].isPerm (largeGame.jushuLimit.map Value.num) = true := by decide
  constructor
  · exact hhonoured.2 hadmits rfl [.num 16, .num 8] 0 123456 9 hkeys (by decide) (by decide)
  · apply (hhonoured.1 (repliesFor [.num 16, .num 8]) (by decide)).mpr
    constructor
    · intro _
      use 8, rfl
      decide
    · rfl

/-- A room of 16 rounds is created where 8 is the smallest number, and 123456 players are recorded. -/
theorem configuration_not_honoured :
  let x : Served := (S2CCreatDesk gamelist oneUser 5 plainDesk).serve answer noRooms.lobby
    (repliesFor [.num 8, .num 16])
  succeeded s2cCreatDesk x = true ∧ (x.state.rooms 0).map (fun info => info.maxJuShu) = some (.num 16) ∧
    written (.tab 0) "maxPlayer" x.outputs = some (.val (.num 123456)) ∧
    ∀ game, gamelist plainDesk.gameId = some game →
      ¬ ∃ info, x.state.rooms 0 = some info ∧ Honours game plainDesk (.tab 0) x.outputs info
  := by
  intro x
  have hrounds : (x.state.rooms 0).map (fun info => info.maxJuShu) = some (.num 16) := by decide
  refine ⟨by decide, hrounds, rfl, ?_⟩
  rintro game hgame ⟨info, hinfo, honours⟩
  obtain rfl := Option.some.inj hgame
  obtain ⟨n, -, hn, hleast⟩ := honours.smallest rfl
  rw [hinfo, Option.map_some, hn] at hrounds
  obtain rfl := Value.num.inj (Option.some.inj hrounds)
  exact absurd (hleast 8 List.mem_cons_self) (by decide)

end Lobby.Configured
