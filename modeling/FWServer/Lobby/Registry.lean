import FWServer.Kernel.Machine
import FWServer.Lobby.CreatDesk

/-!
# The registry of rooms

Runs of the requests to create and to close rooms, each served to its end before the next.

The rooms that have been created and not closed since are kept beside the tables of the lobby, which
are to register them both by user and by game.
-/

open Lua

namespace Lobby

/-! ### Runs -/

/-- A room that has been created and not closed. -/
structure Live where
  userId : Value
  gameId : Value
  roomId : Value
  room : ℕ
  deriving DecidableEq

/-- The lobby, and the rooms it has created and not closed. -/
structure Registry where
  lobby : State
  live : List Live

/-- A request, with the sessions at its time and the replies to what it calls for. -/
inductive Request where
  | creatDesk (users : GameUser.State Value ℕ) (fd : ℕ) (protTab : CreatDesk)
      (replies : List (Except String (List Value)))
  | reqJieSanDesk (users : GameUser.State Value ℕ) (fd : ℕ) (protTab : DeskRequest)
      (replies : List (Except String (List Value)))

/-- Whether a request is one to create a room. -/
def Request.creates : Request → Bool
  | .creatDesk .. => true
  | .reqJieSanDesk .. => false

/-- The rooms created by the messages put out: those the client has been told of.  Their object is
the one numbered `room`. -/
def announced (room : ℕ) (outputs : List Message) : List Live :=
  outputs.filterMap fun
    | .prot _ _ assistId [(_, .val userId), (_, .val roomId), (_, .val gameId), _] =>
        if assistId = s2cCreatDesk then some ⟨userId, gameId, roomId, room⟩ else none
    | _ => none

/-- A request served with success. -/
def Registry.step (p : Registry) : Request → Option Registry
  | .creatDesk users fd protTab replies =>
      let x : Served := (S2CCreatDesk users fd protTab).serve answer p.lobby replies
      if succeeded s2cCreatDesk x then
        some ⟨x.state, announced p.lobby.next x.outputs ++ p.live⟩
      else
        none
  | .reqJieSanDesk users fd protTab replies =>
      let x : Served := (S2CReqJieSanDesk users fd protTab).serve answer p.lobby replies
      if succeeded s2cReqJieSanDesk x then
        some ⟨x.state, p.live.filter fun x =>
          x.gameId ≠ protTab.gameId ∨ x.roomId ≠ protTab.roomId⟩
      else
        none

/-- There are no rooms yet. -/
structure Registry.Empty (p : Registry) : Prop where
  rooms : ∀ room, p.lobby.rooms room = none
  allUserRoom : p.lobby.allUserRoom = ∅
  allGameRoom : p.lobby.allGameRoom = ∅
  live : p.live = []

/-- The machine of all sequences of successful requests. -/
def registry : Machine Registry Request where
  init := Registry.Empty
  step := Registry.step

/-! ### Consistency -/

/-- `m_allGameRoom[gameid][roomid]` -/
def gameEntry (s : State) (gameid roomid : Value) : Option ℕ :=
  (Data.roomtab s.allGameRoom gameid).bind fun t => t.lookup roomid

/-- `m_allUserRoom[userid][roomid]` -/
def userEntry (s : State) (userid roomid : Value) : Option ℕ :=
  (Data.roomtab s.allUserRoom userid).bind fun t => t.lookup roomid

/-- The messages `close` put out, by the service they are for. -/
def closed (outputs : List Message) : List Value :=
  outputs.filterMap fun
    | .send handler (.str "close") _ => some handler
    | _ => none

/-- The registry is consistent. -/
structure Registry.Consistent (p : Registry) : Prop where
  /-- A room is registered by its game precisely when it is registered by its owner. -/
  same : ∀ userId gameId roomId room, (∃ info, p.lobby.rooms room = some info ∧
      info.ownerUserID = userId ∧ info.gameID = gameId) →
    (gameEntry p.lobby gameId roomId = some room ↔ userEntry p.lobby userId roomId = some room)
  /-- The room found under a game and an id is the live one. -/
  found : ∀ gameId roomId room, roomId.truthy = true →
    ((∃ rooms, ((Data.getRoomInfoByRoomId gameId roomId).resume p.lobby).halt = .returned rooms ∧
        room ∈ rooms) ↔
      ∃ x ∈ p.live, x.gameId = gameId ∧ x.roomId = roomId ∧ x.room = room)
  /-- Closing a room removes its entries and closes its service. -/
  closes : ∀ users fd protTab replies, ∀ x ∈ p.live,
    x.gameId = protTab.gameId → x.roomId = protTab.roomId →
    let y : Served := (S2CReqJieSanDesk users fd protTab).serve answer p.lobby replies
    succeeded s2cReqJieSanDesk y = true →
      gameEntry y.state x.gameId x.roomId = none ∧ userEntry y.state x.userId x.roomId = none ∧
      closed y.outputs = ((p.lobby.rooms x.room).map fun info => info.srvHandler).toList

/-! ### Closing rooms -/

/-- A request to close a room does not succeed. -/
theorem jieSanDesk_fails (users : GameUser.State Value ℕ) (fd : ℕ) (protTab : DeskRequest)
    (s : State) (replies : List (Except String (List Value))) :
  succeeded s2cReqJieSanDesk ((S2CReqJieSanDesk users fd protTab).serve answer s replies) = false
  := by
  rw [S2CReqJieSanDesk]
  cases requestUser users fd protTab <;> rfl

/-! ### Creating rooms -/

/-- A request to create a room that succeeds has created one. -/
theorem creatDesk_creates {users : GameUser.State Value ℕ} {fd : ℕ} {protTab : CreatDesk} {s : State}
    {replies : List (Except String (List Value))}
    (h : succeeded s2cCreatDesk ((S2CCreatDesk users fd protTab).serve answer s replies) = true) :
  ∃ game, gamelist protTab.gameId = some game ∧
    Configured.Creates game protTab s replies ((S2CCreatDesk users fd protTab).serve answer s replies)
  := by
  rw [← Configured.S2CCreatDesk_gamelist] at h ⊢
  rcases Configured.S2CCreatDesk_cases gamelist users fd protTab s replies with ⟨-, hfailed⟩ | hcreates
  · cases hfailed.symm.trans h
  · exact hcreates

/-- A room that is created is stored under its object. -/
theorem rooms_withRoom (s : State) (info : RoomInfo) :
  (Configured.withRoom s info).rooms s.next = some info
  := Function.update_self _ _ _

/-- No room is registered by its game as long as none is stored there. -/
theorem gameEntry_withRoom {s : State} (h : ∀ g r, gameEntry s g r = none) (info : RoomInfo)
    (g r : Value) :
  gameEntry (Configured.withRoom s info) g r = none
  := by
  have hgame := h g r
  unfold gameEntry Data.roomtab at hgame ⊢
  dsimp only [Configured.withRoom]
  split at hgame
  · next hg => rw [if_pos hg, Option.bind_none]
  · next hg =>
      rw [if_neg hg]
      rcases eq_or_ne g info.gameID with rfl | hne
      · rw [AList.lookup_insert, Option.bind_some]
        rcases eq_or_ne r info.roomID with rfl | hr
        · rw [AList.lookup_erase]
        · rw [AList.lookup_erase_ne hr, Data.roomtab, if_neg hg]
          cases htab : s.allGameRoom.lookup info.gameID with
          | none => rfl
          | some t =>
              rw [htab] at hgame
              exact hgame
      · rw [AList.lookup_insert_ne hne]
        exact hgame

/-- A room that is created is registered by its owner. -/
theorem userEntry_withRoom (s : State) {info : RoomInfo} (h : info.ownerUserID ≠ .nil) :
  userEntry (Configured.withRoom s info) info.ownerUserID info.roomID = some s.next
  := by
  rw [userEntry, Data.roomtab, if_neg h]
  dsimp only [Configured.withRoom]
  rw [AList.lookup_insert, Option.bind_some, AList.lookup_insert]

/-! ### Runs -/

/-- There is a room registered by its owner and not by its game. -/
def HalfRegistered (s : State) : Prop :=
  ∃ room info roomId, s.rooms room = some info ∧ userEntry s info.ownerUserID roomId = some room ∧
    gameEntry s info.gameID roomId = none

theorem HalfRegistered.not_consistent {p : Registry} (h : HalfRegistered p.lobby) :
  ¬ p.Consistent
  := by
  rintro ⟨hsame, -, -⟩
  obtain ⟨room, info, roomId, hinfo, huser, hgame⟩ := h
  have hentry := (hsame _ _ roomId room ⟨info, hinfo, rfl, rfl⟩).mpr huser
  cases hgame.symm.trans hentry

/-- No room is ever registered by its game, and every room that is created is registered by its
owner. -/
theorem creatDesk_step {p p' : Registry} {users : GameUser.State Value ℕ} {fd : ℕ}
    {protTab : CreatDesk} {replies : List (Except String (List Value))}
    (hp : ∀ g r, gameEntry p.lobby g r = none)
    (hstep : p.step (.creatDesk users fd protTab replies) = some p') :
  (∀ g r, gameEntry p'.lobby g r = none) ∧ HalfRegistered p'.lobby
  := by
  rw [Registry.step] at hstep
  split at hstep
  · next hsucceeded =>
      obtain rfl := Option.some.inj hstep
      obtain ⟨game, -, hcreates⟩ := creatDesk_creates hsucceeded
      obtain ⟨handler, outputs, hstate, -⟩ := hcreates.served
      dsimp only
      rw [hstate]
      have hnone := gameEntry_withRoom hp
      refine ⟨hnone _, p.lobby.next, _, _, rooms_withRoom _ _, userEntry_withRoom _ ?_, hnone _ _ _⟩
      apply Value.ne_nil_of_truthy hcreates.userId
  · cases hstep

theorem reqJieSanDesk_step (p : Registry) (users : GameUser.State Value ℕ) (fd : ℕ)
    (protTab : DeskRequest) (replies : List (Except String (List Value))) :
  p.step (.reqJieSanDesk users fd protTab replies) = none
  := by
  rw [Registry.step, jieSanDesk_fails]
  rfl

theorem Registry.Empty.gameEntry {p : Registry} (h : p.Empty) (g r : Value) :
  gameEntry p.lobby g r = none
  := by
  rw [Lobby.gameEntry, Data.roomtab, h.allGameRoom]
  split <;> rfl

/-- Without rooms the registry is consistent. -/
theorem Registry.Empty.consistent {p : Registry} (h : p.Empty) :
  p.Consistent
  := by
  constructor
  · rintro userId gameId roomId room ⟨info, hinfo, -⟩
    cases (h.rooms room).symm.trans hinfo
  · intro gameId roomId room hroomId
    apply iff_of_false
    · rintro ⟨rooms, hrooms, -⟩
      cases hrooms
    · rintro ⟨x, hx, -⟩
      rw [h.live] at hx
      cases hx
  · intro users fd protTab replies x hx
    rw [h.live] at hx
    cases hx

/-- No room is ever registered by its game. -/
theorem gameEntry_of_reachable {p : Registry} (hp : registry.Reachable p) :
  ∀ g r, gameEntry p.lobby g r = none
  := by
  apply Machine.invariant _ _ hp
  · intro p hempty
    exact hempty.gameEntry
  · rintro p l p' hnone - hstep
    cases l with
    | creatDesk users fd protTab replies => exact (creatDesk_step hnone hstep).1
    | reqJieSanDesk users fd protTab replies =>
        cases (reqJieSanDesk_step p users fd protTab replies).symm.trans hstep

/-- After any sequence of successful requests the registry is consistent precisely when none of them
has created a room. -/
theorem registry_consistent_iff {ls : List Request} {p : Registry}
    (h : registry.Run (fun _ _ => True) ls p) :
  p.Consistent ↔ ∀ l ∈ ls, l.creates = false
  := by
  cases h with
  | init hempty =>
      apply iff_of_true hempty.consistent
      intro l hl
      cases hl
  | @step ls p p' l hrun _ hstep =>
      cases l with
      | creatDesk users fd protTab replies =>
          obtain ⟨-, hhalf⟩ := creatDesk_step (gameEntry_of_reachable hrun.reaches) hstep
          apply iff_of_false hhalf.not_consistent
          intro hnone
          cases hnone _ (List.mem_append_right _ List.mem_cons_self)
      | reqJieSanDesk users fd protTab replies =>
          cases (reqJieSanDesk_step p users fd protTab replies).symm.trans hstep

/-! ### A room -/

/-- User 7 is logged in on connection 5. -/
def oneUser : GameUser.State Value ℕ where
  userToFdTab := Function.update (fun _ => none) (.num 7) (some 5)
  fdToUserIdTab := Function.update (fun _ => none) 5 (some (.num 7))
  userInfoTab _ := none
  timer := ⟨fun _ => none, 0, []⟩

/-- The user creates a room of game 1001 with 8 rounds; its id is 123456 and its service 9. -/
def oneRoom : Request :=
  .creatDesk oneUser 5 ⟨.num 7, .num 1001, .nil, some ⟨.num 8, .nil, .nil, .nil⟩⟩
    [.ok [.tab 0, .num 123456], .ok [.num 9], .ok []]

/-- The lobby at the start. -/
def noRooms : Registry :=
  ⟨⟨fun _ => none, 0, ∅, ∅, .num 3⟩, []⟩

theorem noRooms_empty :
  noRooms.Empty
  := ⟨fun _ => rfl, rfl, rfl, rfl⟩

/-- The room is registered by its owner and not by its game, and looking it up raises an error. -/
theorem registry_inconsistent :
  ∃ p, registry.Run (fun _ _ => True) [oneRoom] p ∧
    p.live = [⟨.num 7, .num 1001, .num 123456, 0⟩] ∧
    userEntry p.lobby (.num 7) (.num 123456) = some 0 ∧
    gameEntry p.lobby (.num 1001) (.num 123456) = none ∧
    ((Data.getRoomInfoByRoomId (.num 1001) (.num 123456)).resume p.lobby).halt
      = .raised "attempt to index a nil value (field '?')" ∧ ¬ p.Consistent
  := by
  have hstep : ∃ p, noRooms.step oneRoom = some p ∧
      p.live = [⟨.num 7, .num 1001, .num 123456, 0⟩] ∧
      userEntry p.lobby (.num 7) (.num 123456) = some 0 ∧
      gameEntry p.lobby (.num 1001) (.num 123456) = none :=
    ⟨_, rfl, rfl, rfl, rfl⟩
  obtain ⟨p, hstep, hlive, huser, hgame⟩ := hstep
  have hrun : registry.Run (fun _ _ => True) [oneRoom] p :=
    Machine.Run.step (M := registry) (.init noRooms_empty) trivial hstep
  use p, hrun, hlive, huser, hgame, rfl
  rintro ⟨-, hfound, -⟩
  obtain ⟨rooms, hrooms, -⟩ := (hfound (.num 1001) (.num 123456) 0 rfl).mpr (by
    rw [hlive]
    exact ⟨_, List.mem_cons_self, rfl, rfl, rfl⟩)
  cases hrooms

/-- After the request that creates the room the registry is consistent precisely when the request does
not create one. -/
theorem registry_consistent_iff_oneRoom :
  ∃ p, registry.Run (fun _ _ => True) [oneRoom] p ∧
    (p.Consistent ↔ ∀ l ∈ [oneRoom], l.creates = false)
  := by
  have hstep : ∃ p, noRooms.step oneRoom = some p := ⟨_, rfl⟩
  obtain ⟨p, hstep⟩ := hstep
  have hrun : registry.Run (fun _ _ => True) [oneRoom] p :=
    Machine.Run.step (M := registry) (.init noRooms_empty) trivial hstep
  exact ⟨p, hrun, registry_consistent_iff hrun⟩

end Lobby
