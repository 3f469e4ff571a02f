import FWServer.Lobby.Registry

/-!
# Seats

Runs of the requests to enter and to leave rooms, after a room has been created.  A seat is an entry
of the table of the users of the room.
-/

open Lua

namespace Lobby

/-! ### Runs -/

/-- A request to enter or to leave a room, with the sessions at its time and the replies to what it
calls for. -/
inductive SeatRequest where
  | enterDesk (users : GameUser.State Value ℕ) (fd : ℕ) (protTab : DeskRequest)
      (replies : List (Except String (List Value)))
  | leaveDesk (users : GameUser.State Value ℕ) (fd : ℕ) (protTab : DeskRequest)
      (replies : List (Except String (List Value)))

/-- The request served, whether it ends in success or not. -/
def SeatRequest.serve (s : State) : SeatRequest → Served
  | .enterDesk users fd protTab replies =>
      (S2CReqEnterDesk users fd protTab).serve answer s replies
  | .leaveDesk users fd protTab replies =>
      (S2CReqLeaveDesk users fd protTab).serve answer s replies

/-- The state after a request, unless it is still waiting for a reply. -/
def seatStep (s : State) (l : SeatRequest) : Option State :=
  match (l.serve s).halt with
  | .waiting _ _ => none
  | _ => some (l.serve s).state

/-- A room object that a request has just created: the game and the id of the room, and the number
of players it is for. -/
structure Created (room : ℕ) (gameId roomId : Value) (n : ℤ) (s : State) : Prop where
  request : ∃ p users fd protTab replies p', registry.Reachable p ∧
    p.step (.creatDesk users fd protTab replies) = some p' ∧ p.lobby.next = room ∧ p'.lobby = s
  info : ∃ info, s.rooms room = some info ∧ info.gameID = gameId ∧ info.roomID = roomId ∧
    info.config.get (.str "maxPlayer") = .num n

/-- The machine of all sequences of requests about seats, from the creation of the room on. -/
def seating (room : ℕ) (gameId roomId : Value) (n : ℤ) : Machine State SeatRequest where
  init := Created room gameId roomId n
  step := seatStep

/-! ### Seating -/

/-- The table of the seats of a room. -/
def seats (s : State) (room : ℕ) : Table :=
  ((s.rooms room).map fun info => info.userTab).getD ∅

/-- The user has the seat `i`. -/
def Seated (s : State) (room : ℕ) (u : Value) (i : ℤ) : Prop :=
  (seats s room).get (.num i) = u ∧ u ≠ .nil

/-- The request is one of the user to enter the room. -/
def SeatRequest.Enters (gameId roomId u : Value) : SeatRequest → Prop
  | .enterDesk users fd protTab _ =>
      requestUser users fd protTab = some u ∧ protTab.gameId = gameId ∧ protTab.roomId = roomId
  | .leaveDesk .. => False

/-- The request is one of the user to leave the room. -/
def SeatRequest.Leaves (gameId roomId u : Value) : SeatRequest → Prop
  | .enterDesk .. => False
  | .leaveDesk users fd protTab _ =>
      requestUser users fd protTab = some u ∧ protTab.gameId = gameId ∧ protTab.roomId = roomId

/-- What a request that leads from `s` to `s'` is to do with the seats of a room for `n` players. -/
structure SeatsKept (room : ℕ) (gameId roomId : Value) (n : ℤ) (s : State) (l : SeatRequest)
    (s' : State) : Prop where
  /-- At most `n` users are seated. -/
  atMost : ((seats s' room).keys.length : ℤ) ≤ n
  range : ∀ u i, Seated s' room u i → 1 ≤ i ∧ i ≤ n
  /-- A user has one seat. -/
  one : ∀ u i j, Seated s' room u i → Seated s' room u j → i = j
  /-- A user keeps the seat until leaving. -/
  keeps : ∀ u i, Seated s room u i → ¬ l.Leaves gameId roomId u → Seated s' room u i
  frees : ∀ u i, l.Leaves gameId roomId u → ¬ Seated s' room u i
  /-- While there are free seats a user who has none is admitted. -/
  admits : ∀ u, l.Enters gameId roomId u → (∀ i, ¬ Seated s room u i) →
    ((seats s room).keys.length : ℤ) < n → ∃ i, Seated s' room u i

/-! ### What the requests do -/

/-- A request to enter changes nothing: it is refused, or the room is not found. -/
theorem enterDesk_served (users : GameUser.State Value ℕ) (fd : ℕ) (protTab : DeskRequest)
    (s : State) (replies : List (Except String (List Value))) :
  let x : Served := (S2CReqEnterDesk users fd protTab).serve answer s replies
  x.state = s ∧ ∀ q k, x.halt ≠ .waiting q k
  := by
  intro x
  dsimp only [x]
  rw [S2CReqEnterDesk]
  cases requestUser users fd protTab with
  | none => exact ⟨rfl, nofun⟩
  | some userId => exact ⟨rfl, nofun⟩

/-- A request to leave changes nothing: it is refused, or the protocol for the answer is not
found. -/
theorem leaveDesk_served (users : GameUser.State Value ℕ) (fd : ℕ) (protTab : DeskRequest)
    (s : State) (replies : List (Except String (List Value))) :
  let x : Served := (S2CReqLeaveDesk users fd protTab).serve answer s replies
  x.state = s ∧ ∀ q k, x.halt ≠ .waiting q k
  := by
  intro x
  dsimp only [x]
  rw [S2CReqLeaveDesk]
  cases requestUser users fd protTab with
  | none => exact ⟨rfl, by rintro q k ⟨⟩⟩
  | some userId =>
      dsimp only
      rw [Data.getRoomInfoByUserId, Coroutine.read_bind, Coroutine.serve, Data.getRoomInfo]
      cases Data.roomtab s.allUserRoom userId with
      | none => exact ⟨rfl, by rintro q k ⟨⟩⟩
      | some t =>
          dsimp only
          split
          · rw [Coroutine.pure_eq, Coroutine.ret_bind]
            split
            · exact ⟨rfl, by rintro q k ⟨⟩⟩
            · exact ⟨rfl, by rintro q k ⟨⟩⟩
          · rw [Coroutine.pure_eq, Coroutine.ret_bind]
            split
            · exact ⟨rfl, by rintro q k ⟨⟩⟩
            · exact ⟨rfl, by rintro q k ⟨⟩⟩

/-- No request changes anything. -/
theorem seatStep_eq (s : State) (l : SeatRequest) :
  seatStep s l = some s
  := by
  have hserved : (l.serve s).state = s ∧ ∀ q k, (l.serve s).halt ≠ .waiting q k := by
    cases l with
    | enterDesk users fd protTab replies => exact enterDesk_served users fd protTab s replies
    | leaveDesk users fd protTab replies => exact leaveDesk_served users fd protTab s replies
  obtain ⟨hstate, hhalt⟩ := hserved
  rw [seatStep]
  split
  · next q k hwaiting => exact absurd hwaiting (hhalt q k)
  · rw [hstate]

/-- A condition on all steps of a run is one on all its requests. -/
theorem seating_guarded_iff {room : ℕ} {gameId roomId : Value} {n : ℤ}
    {ok : State → SeatRequest → Prop} (s : State) (ls : List SeatRequest) :
  (seating room gameId roomId n).Guarded ok s ls ↔ ∀ l ∈ ls, ok s l
  := by
  induction ls with
  | nil =>
      apply iff_of_true trivial
      intro l hl
      cases hl
  | cons l ls ih =>
      rw [List.forall_mem_cons, ← ih]
      constructor
      · intro h
        exact h s (seatStep_eq s l)
      · intro h s' hs'
        obtain rfl := Option.some.inj ((seatStep_eq s l).symm.trans hs')
        exact h

/-! ### The room created -/

/-- A configuration a game allows is for a positive number of players. -/
theorem pos_of_legal {gameId : Value} {game : GameConfig} {config : Config} {n : ℤ}
    (hgame : gamelist gameId = some game) (hlegal : legal game config = true)
    (hn : config.maxPlayer = .num n) :
  0 < n
  := by
  unfold gamelist at hgame
  split at hgame
  · cases hgame
    rw [legal, Bool.and_eq_true, hn] at hlegal
    obtain rfl : n = 2 := by simpa using hlegal.2
    decide
  · cases hgame

/-- A room that has just been created is for some players, and has nobody in it. -/
theorem Created.seats_eq {room : ℕ} {gameId roomId : Value} {n : ℤ} {s : State}
    (h : Created room gameId roomId n s) :
  seats s room = ∅ ∧ 0 < n
  := by
  obtain ⟨p, users, fd, protTab, replies, p', -, hstep, rfl, rfl⟩ := h.request
  obtain ⟨info, hinfo, -, -, hn⟩ := h.info
  rw [Registry.step] at hstep
  split at hstep
  · next hsucceeded =>
      obtain rfl := Option.some.inj hstep
      obtain ⟨game, hgame, hcreates⟩ := creatDesk_creates hsucceeded
      obtain ⟨handler, outputs, hstate, -⟩ := hcreates.served
      dsimp only at hinfo
      rw [hstate, rooms_withRoom] at hinfo
      obtain rfl := Option.some.inj hinfo
      constructor
      · dsimp only
        rw [hstate, seats, rooms_withRoom]
        rfl
      · apply pos_of_legal hgame hcreates.legal
        rw [← configTab_maxPlayer]
        exact hn
  · cases hstep

theorem not_seated {s : State} {room : ℕ} (h : seats s room = ∅) (u : Value) (i : ℤ) :
  ¬ Seated s room u i
  := by
  rintro ⟨hu, hnil⟩
  rw [h] at hu
  exact hnil hu.symm

/-- From the creation of a room on, its seats are kept as they should precisely when nobody asks to
enter it. -/
theorem seats_kept_iff {room : ℕ} {gameId roomId : Value} {n : ℤ} {s : State}
    (h : Created room gameId roomId n s) (ls : List SeatRequest) :
  (seating room gameId roomId n).Guarded
      (fun s l => ∀ s', seatStep s l = some s' → SeatsKept room gameId roomId n s l s') s ls ↔
    ∀ l ∈ ls, ∀ u, ¬ l.Enters gameId roomId u
  := by
  obtain ⟨hseats, hn⟩ := h.seats_eq
  rw [seating_guarded_iff]
  apply forall₂_congr
  rintro l -
  constructor
  · intro hkept u henters
    obtain ⟨i, hseated⟩ := (hkept s (seatStep_eq s l)).admits u henters (not_seated hseats u) (by
      rw [hseats]
      exact hn)
    exact not_seated hseats u i hseated
  · intro hnobody s' hs'
    obtain rfl := Option.some.inj ((seatStep_eq s l).symm.trans hs')
    constructor
    · rw [hseats]
      exact Int.le_of_lt hn
    · intro u i hseated
      exact absurd hseated (not_seated hseats u i)
    · intro u i j hseated
      exact absurd hseated (not_seated hseats u i)
    · intro u i hseated
      exact absurd hseated (not_seated hseats u i)
    · intro u i hleaves
      exact not_seated hseats u i
    · intro u henters
      exact absurd henters (hnobody u)

/-! ### A room -/

/-- The user 7 creates a room for two players and asks to enter it: the user has no seat, though both
are free. -/
theorem enter_refused :
  ∃ s, Created 0 (.num 1001) (.num 123456) 2 s ∧
    let enter : SeatRequest := .enterDesk oneUser 5 ⟨.num 7, .num 1001, .num 123456⟩ []
    enter.Enters (.num 1001) (.num 123456) (.num 7) ∧ seats s 0 = ∅ ∧ seatStep s enter = some s ∧
    ¬ SeatsKept 0 (.num 1001) (.num 123456) 2 s enter s
  := by
  have hstep : ∃ p, noRooms.step oneRoom = some p ∧ ∃ info, p.lobby.rooms 0 = some info ∧
      info.gameID = .num 1001 ∧ info.roomID = .num 123456 ∧
      info.config.get (.str "maxPlayer") = .num 2 ∧ info.userTab = ∅ :=
    ⟨_, rfl, _, rfl, rfl, rfl, rfl, rfl⟩
  obtain ⟨p, hstep, info, hinfo, hgameID, hroomID, hconfig, huserTab⟩ := hstep
  have hseats : seats p.lobby 0 = ∅ := by
    rw [seats, hinfo, Option.map_some, Option.getD_some, huserTab]
  have hcreated : Created 0 (.num 1001) (.num 123456) 2 p.lobby := by
    constructor
    · exact ⟨noRooms, _, _, _, _, p, .init noRooms_empty, hstep, rfl, rfl⟩
    · exact ⟨info, hinfo, hgameID, hroomID, hconfig⟩
  use p.lobby, hcreated, ⟨rfl, rfl, rfl⟩, hseats, rfl
  intro hkept
  obtain ⟨i, hseated⟩ := hkept.admits (.num 7) ⟨rfl, rfl, rfl⟩ (not_seated hseats _) (by
    rw [hseats]
    decide)
  exact not_seated hseats _ i hseated

/-- In a run that is the one request to leave the room all is as it should be. -/
theorem seats_kept_iff_leave :
  ∃ s, Created 0 (.num 1001) (.num 123456) 2 s ∧
    let ls : List SeatRequest := [.leaveDesk oneUser 5 ⟨.num 7, .num 1001, .num 123456⟩ []]
    ((seating 0 (.num 1001) (.num 123456) 2).Guarded (fun s l => ∀ s', seatStep s l = some s' →
        SeatsKept 0 (.num 1001) (.num 123456) 2 s l s') s ls ↔
      ∀ l ∈ ls, ∀ u, ¬ l.Enters (.num 1001) (.num 123456) u)
  := by
  have hstep : ∃ p, noRooms.step oneRoom = some p ∧ ∃ info, p.lobby.rooms 0 = some info ∧
      info.gameID = .num 1001 ∧ info.roomID = .num 123456 ∧
      info.config.get (.str "maxPlayer") = .num 2 :=
    ⟨_, rfl, _, rfl, rfl, rfl, rfl⟩
  obtain ⟨p, hstep, hinfo⟩ := hstep
  have hcreated : Created 0 (.num 1001) (.num 123456) 2 p.lobby := by
    constructor
    · exact ⟨noRooms, _, _, _, _, p, .init noRooms_empty, hstep, rfl, rfl⟩
    · exact hinfo
  exact ⟨p.lobby, hcreated, seats_kept_iff hcreated _⟩

end Lobby
