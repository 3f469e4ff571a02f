import FWServer.Db.Backend
import FWServer.Db.Database

/-!
# Creating a room

`g_database.createRoomRecord`: numbers are drawn until one is found that no room has; then a record is
inserted under it, gets its owner and is written back.
-/

open Lua DbCache Backend
open Script (ofReply)

namespace Database

/-- A number that `math.random(100000, 999999)` yields. -/
structure RoomId where
  val : ℤ
  ge : 100000 ≤ val
  le : val ≤ 999999
  deriving DecidableEq

/-- A room id as a key. -/
def RoomId.key (x : RoomId) : Value :=
  .num x.val

/-- What `createRoomRecord` returns, `toHandle` and `toId`. -/
abbrev Room : Type :=
  Handle × RoomId

/-- The rest of `createRoomRecord` once the record has been inserted. -/
def ownRoom (userId : Value) (toId : RoomId) (toHandle : Handle) : Script Room := do
  set toHandle (.str "ownUserId") userId
  update toHandle
  pure (toHandle, toId)

/-- `g_database.createRoomRecord`.  The numbers that are drawn are given beforehand; a call that has used
up all of them goes no further. -/
def createRoomRecord (userId : Value) : List RoomId → Script Room
  | [] => Coroutine.error "no number is drawn"
  | toId :: draws => do
      let known ← exist .room toId.key
      if known then
        createRoomRecord userId draws
      else do
        let toHandle ← insert .room toId.key
        ownRoom userId toId toHandle

namespace RoomRecord

theorem key_truthy (x : RoomId) :
  x.key.truthy = true
  := rfl

theorem key_ne_nil (x : RoomId) :
  x.key ≠ .nil
  := nofun

theorem key_injective :
  Function.Injective RoomId.key
  := by
  rintro ⟨x, _, _⟩ ⟨y, _, _⟩ h
  cases h
  rfl

/-! ### Where a call is suspended -/

/-- A call of `createRoomRecord`: the argument, and the numbers it draws. -/
structure Job where
  userId : Value
  draws : List RoomId

/-- What `exist` makes of the answer. -/
def found (rtab : Answer) : Script Bool :=
  if rtab.tabs.isEmpty then
    pure false
  else do
    cacheRecords .room rtab.tabs
    pure true

/-- The rest of `createRoomRecord` once it is known whether the room `toId` exists. -/
def tested (userId : Value) (toId : RoomId) (draws : List RoomId) (known : Bool) : Script Room :=
  if known then
    createRoomRecord userId draws
  else do
    let toHandle ← insert .room toId.key
    ownRoom userId toId toHandle

/-- The four calls of `createRoomRecord`: that of `exist`, the two of `insert` and that of `update`. -/
inductive Phase where
  | testing
  | inserting
  | filling
  | updating
  deriving DecidableEq

/-- The record has been cached by the call. -/
def Phase.created : Phase → Bool
  | .testing | .inserting => false
  | .filling | .updating => true

/-- The job `j` is suspended in its call of the phase `p` for the room `x`, which the query `q` is
and whose answer resumes `k`. -/
def At (j : Job) (x : RoomId) (q : Script.Call) (k : Except String Answer → Script Room) : Phase → Prop
  | .testing => ∃ h draws, q = .redis h (.query .room x.key) ∧
      ∀ r, k r = (ofReply r >>= found >>= tested j.userId x draws)
  | .inserting => ∃ h, q = .redis h (.insert .room x.key) ∧
      ∀ r, k r = (ofReply r >>= inserted .room h >>= ownRoom j.userId x)
  | .filling => ∃ h rectab, q = .redis h (.update .room rectab) ∧
      rectab.get (dbtable .room).pkey = x.key ∧
      ∀ r, k r = ((ofReply r >>= fun _ => pure ⟨.room, x.key⟩) >>= ownRoom j.userId x)
  | .updating => ∃ h rectab, q = .redis h (.update .room rectab) ∧
      ∀ r, k r = (ofReply r >>= updated .room x.key false >>= fun _ => pure (⟨.room, x.key⟩, x))

/-! ### What a stretch does to the rooms -/

/-- The tables of the cached rooms have been created, or are those of the defaults. -/
def Allocated (s : Script.State) : Prop :=
  ∀ key n, record s .room key = some (.created n) → n < s.heap.next

/-- The cached rooms stay cached, and those whose key is not in `K` stay as they are. -/
structure Steady (K : Value → Prop) (s s' : Script.State) : Prop where
  cached : ∀ key, (record s .room key).isSome → (record s' .room key).isSome
  allocated : Allocated s → Allocated s'
  kept : Allocated s → ∀ key rectab, record s .room key = some rectab → ¬ K key →
    record s' .room key = some rectab ∧ s'.deref rectab = s.deref rectab

/-- The room `x` is cached with the table of the defaults, and no other is. -/
structure Sole (x : RoomId) (s : Script.State) : Prop where
  cached : record s .room x.key = some (.static .room)
  only : ∀ key, record s .room key = some (.static .room) → key = x.key
  keyed : (s.detail .room).get (dbtable .room).pkey = x.key

section Stretches

variable {K K' : Value → Prop} {s s' s'' : Script.State} {x : RoomId}

theorem Steady.refl (K : Value → Prop) (s : Script.State) :
  Steady K s s
  := ⟨fun _ h => h, fun h => h, fun _ _ _ h _ => ⟨h, rfl⟩⟩

theorem Steady.trans (h : Steady K s s') (h' : Steady K s' s'') :
  Steady K s s''
  := by
  constructor
  · exact fun key hkey => h'.cached key (h.cached key hkey)
  · exact fun hs => h'.allocated (h.allocated hs)
  · intro hs key rectab hrec hK
    obtain ⟨hrec', hderef⟩ := h.kept hs key rectab hrec hK
    obtain ⟨hrec'', hderef'⟩ := h'.kept (h.allocated hs) key rectab hrec' hK
    exact ⟨hrec'', hderef'.trans hderef⟩

theorem Steady.mono (hle : ∀ key, K key → K' key) (h : Steady K s s') :
  Steady K' s s'
  := ⟨h.cached, h.allocated, fun hs key rectab hrec hK => h.kept hs key rectab hrec fun hkey =>
    hK (hle key hkey)⟩

/-- Which service is in turn does not matter. -/
theorem Steady.turn (h : Steady K s s') (m : ℕ) :
  Steady K s { s' with numhandler := m }
  := ⟨h.cached, h.allocated, h.kept⟩

theorem Sole.turn (h : Sole x s) (m : ℕ) :
  Sole x { s with numhandler := m }
  := ⟨h.cached, h.only, h.keyed⟩

/-- A call looks for a number without a room: it goes no further, or asks whether a room has the number,
of which it knows that it is not cached. -/
theorem createRoomRecord_resume (j : Job) (draws : List RoomId) (s : Script.State) :
  ∃ m, let s' : Script.State := { s with numhandler := m }
    (∃ e, (createRoomRecord j.userId draws).resume s = ⟨[], s', .raised e⟩) ∨
    ∃ x q k, (createRoomRecord j.userId draws).resume s = ⟨[], s', .waiting q k⟩ ∧
      At j x q k .testing
  := by
  induction draws with
  | nil => exact ⟨s.numhandler, .inl ⟨_, rfl⟩⟩
  | cons toId draws ih =>
      have hcons : createRoomRecord j.userId (toId :: draws)
          = exist .room toId.key >>= tested j.userId toId draws := rfl
      obtain ⟨e, he⟩ := isExist_resume .room (key_truthy toId)
      have hexist := he s
      rw [hcons]
      split at hexist
      · rw [exist, Coroutine.resume_bind_of_returned hexist]
        exact ih
      · use s.numhandler + 1
        cases hturn : handlerInTurn s with
        | none =>
            rw [hturn] at hexist
            rw [exist, Coroutine.resume_bind_of_raised hexist]
            exact .inl ⟨_, rfl⟩
        | some h =>
            rw [hturn] at hexist
            rw [exist, Coroutine.resume_bind_of_waiting hexist]
            exact .inr ⟨toId, _, _, rfl, h, draws, rfl, fun _ => rfl⟩

/-- Creating a table. -/
theorem Steady.alloc (K : Value → Prop) (s : Script.State) (t : Table)
    (d : TName → AList fun _ : Value => Script.DueTime) :
  Steady K s { s with heap := s.heap.alloc t, dtab := d }
  := by
  constructor
  · exact fun _ h => h
  · exact fun hs key n hrec => Nat.lt_succ_of_lt (hs key n hrec)
  · intro hs key rectab hrec _
    use hrec
    apply Heap.alloc_cells_of_ne
    rintro rfl
    exact lt_irrefl _ (hs key _ hrec)

theorem record_insert (s : Script.State) (heap : Heap TName) (key key' : Value) (rectab : Ref TName)
    (d : TName → AList fun _ : Value => Script.DueTime) :
  record { s with
    heap := heap
    dtab := d
    cache := Function.update s.cache .room ((s.cache .room).insert key rectab) } .room key'
    = if key' = key ∧ key'.truthy = true then some rectab else record s .room key'
  := by
  unfold record
  dsimp only
  rw [lookup_insert]
  by_cases hkey : key' = key
  · subst hkey
    cases key'.truthy <;> simp
  · simp [hkey]

/-- Caching a record in a table created for it. -/
theorem Steady.put (s : Script.State) (t : Table) (d : TName → AList fun _ : Value => Script.DueTime)
    (hK : K (t.get (dbtable .room).pkey)) :
  Steady K s { s with
    heap := s.heap.alloc t
    dtab := d
    cache := Function.update s.cache .room
      ((s.cache .room).insert (t.get (dbtable .room).pkey) (.created s.heap.next)) }
  := by
  constructor
  · intro key hkey
    rw [record_insert]
    split
    · rfl
    · exact hkey
  · intro hs key n hrec
    rw [record_insert] at hrec
    split at hrec
    · cases hrec
      exact Nat.lt_succ_self _
    · exact Nat.lt_succ_of_lt (hs key n hrec)
  · intro hs key rectab hrec hnot
    have hne : ¬ (key = t.get (dbtable .room).pkey ∧ key.truthy = true) := by
      rintro ⟨rfl, -⟩
      exact hnot hK
    rw [record_insert, if_neg hne]
    exact ((Steady.alloc K s t d).kept hs key rectab hrec hnot)

theorem Sole.put (h : Sole x s) (t : Table) (d : TName → AList fun _ : Value => Script.DueTime)
    (hne : t.get (dbtable .room).pkey ≠ x.key) :
  Sole x { s with
    heap := s.heap.alloc t
    dtab := d
    cache := Function.update s.cache .room
      ((s.cache .room).insert (t.get (dbtable .room).pkey) (.created s.heap.next)) }
  := by
  constructor
  · rw [record_insert, if_neg fun heq => hne heq.1.symm]
    exact h.cached
  · intro key hrec
    rw [record_insert] at hrec
    split at hrec
    · cases hrec
    · exact h.only key hrec
  · have hdetail := Heap.alloc_cells_static s.heap t TName.room
    unfold Script.State.detail Script.State.deref
    dsimp only
    rw [hdetail]
    exact h.keyed

/-- Caching what `exist` has found. -/
theorem cacheRecords_resume (recs : List Table) (s : Script.State) :
  ∃ s', Steady (fun key => ∃ rtab ∈ recs, key = rtab.get (dbtable .room).pkey) s s' ∧
    (∀ x, Sole x s → (∀ rtab ∈ recs, rtab.get (dbtable .room).pkey ≠ x.key) → Sole x s') ∧
    ((cacheRecords .room recs).resume s = ⟨[], s', .returned ()⟩ ∨
      ∃ e, (cacheRecords .room recs).resume s = ⟨[], s', .raised e⟩)
  := by
  induction recs generalizing s with
  | nil => exact ⟨s, .refl _ s, fun _ h _ => h, .inl rfl⟩
  | cons rtab recs ih =>
      obtain ⟨d, hd⟩ := cacheRecords_cons_resume .room rtab recs s
      rw [hd]
      split
      · refine ⟨_, .alloc _ s rtab d, ?_, .inr ⟨_, rfl⟩⟩
        intro x hx _
        use hx.cached, hx.only
        have hdetail := Heap.alloc_cells_static s.heap rtab TName.room
        unfold Script.State.detail Script.State.deref
        dsimp only
        rw [hdetail]
        exact hx.keyed
      · obtain ⟨s', hsteady, hsole, hresume⟩ := ih _
        refine ⟨s', ?_, ?_, hresume⟩
        · apply Steady.trans (.put s rtab d ⟨rtab, List.mem_cons_self, rfl⟩)
          apply hsteady.mono
          rintro key ⟨rtab', hmem, rfl⟩
          exact ⟨rtab', List.mem_cons_of_mem _ hmem, rfl⟩
        · intro x hx hne
          apply hsole x (hx.put rtab d (hne rtab List.mem_cons_self))
          exact fun rtab' hmem => hne rtab' (List.mem_cons_of_mem _ hmem)

/-! ### From one suspension to the next -/

/-- The records of a reply. -/
def foundIn : Except String Answer → List Table
  | .ok rtab => rtab.tabs
  | .error _ => []

/-- A call that has not created a room: it goes no further, tests a number or inserts a room, of which it
knows that it is not cached. -/
def Seeking (j : Job) (s : Script.State) : Coroutine.Halt Script.interface Room → Prop
  | .returned _ => False
  | .raised _ => True
  | .waiting q k => ∃ x, At j x q k .testing ∨ At j x q k .inserting ∧ record s .room x.key = none

/-- A call that has created the room `x`: it goes no further, updates the room or returns it. -/
def Creating (j : Job) (x : RoomId) : Coroutine.Halt Script.interface Room → Prop
  | .returned room => room.2 = x
  | .raised _ => True
  | .waiting q k => At j x q k .filling ∨ At j x q k .updating

/-- A number that is free is inserted unless it has been cached meanwhile; else another one is looked
for. -/
theorem testing_resume (j : Job) (x : RoomId) (draws : List RoomId) (r : Except String Answer)
    (hfree : ∀ rtab, r = .ok rtab → rtab.tabs = [] → record s .room x.key = none) :
  ∃ s' halt, (ofReply r >>= found >>= tested j.userId x draws).resume s = ⟨[], s', halt⟩ ∧
    Seeking j s halt ∧
    Steady (fun key => ∃ rtab ∈ foundIn r, key = rtab.get (dbtable .room).pkey) s s' ∧
    ∀ y, Sole y s → (∀ rtab ∈ foundIn r, rtab.get (dbtable .room).pkey ≠ y.key) → Sole y s'
  := by
  match r with
  | .error e => exact ⟨s, _, rfl, trivial, .refl _ s, fun _ h _ => h⟩
  | .ok rtab =>
      rw [Script.ofReply_ok_bind, found]
      split
      · next hempty =>
          have hnone := hfree rtab rfl (List.isEmpty_iff.mp hempty)
          obtain ⟨e, he⟩ := init_resume .room x.key true
          have hinit := he s
          rw [hnone] at hinit
          have htested : (pure false >>= tested j.userId x draws)
              = init .room x.key true >>= ownRoom j.userId x := rfl
          have hkept : ∀ K, Steady K s (nextInTurn s) := fun K => (Steady.refl K s).turn _
          have hsole : ∀ y, Sole y s → Sole y (nextInTurn s) := fun y h => h.turn _
          rw [htested]
          cases hturn : handlerInTurn s with
          | none =>
              rw [hturn] at hinit
              rw [Coroutine.resume_bind_of_raised hinit]
              exact ⟨_, _, rfl, trivial, hkept _, fun y h _ => hsole y h⟩
          | some h =>
              rw [hturn] at hinit
              rw [Coroutine.resume_bind_of_waiting hinit]
              refine ⟨_, _, rfl, ⟨x, .inr ⟨?_, hnone⟩⟩, hkept _, fun y h _ => hsole y h⟩
              exact ⟨h, rfl, fun _ => rfl⟩
      · obtain ⟨s₁, hsteady, hsole, hresume⟩ := cacheRecords_resume rtab.tabs s
        have hbind : (cacheRecords .room rtab.tabs >>= fun _ => pure true) >>= tested j.userId x draws
            = cacheRecords .room rtab.tabs >>= fun _ => createRoomRecord j.userId draws :=
          Coroutine.bind_bind _ _ _
        rw [hbind]
        obtain hreturned | ⟨e, hraised⟩ := hresume
        · rw [Coroutine.resume_bind_of_returned hreturned]
          obtain ⟨m, ⟨e, hresume⟩ | ⟨y, q, k, hresume, hat⟩⟩ := createRoomRecord_resume j draws s₁
          · rw [hresume]
            exact ⟨_, _, rfl, trivial, hsteady.turn m, fun y hy hne => (hsole y hy hne).turn m⟩
          · rw [hresume]
            exact ⟨_, _, rfl, ⟨y, .inl hat⟩, hsteady.turn m, fun y hy hne => (hsole y hy hne).turn m⟩
        · rw [Coroutine.resume_bind_of_raised hraised]
          exact ⟨_, _, rfl, trivial, hsteady, hsole⟩

/-- A room that is not cached when the answer to the insert arrives is cached with the table of the
defaults. -/
theorem inserting_resume (j : Job) (x : RoomId) (h : ℕ) (s : Script.State) :
  ∃ s' halt, (ofReply (.ok (.value x.key)) >>= inserted .room h >>= ownRoom j.userId x).resume s
      = ⟨[], s', halt⟩ ∧
    (s' = s ∧ (∃ e, halt = .raised e) ∨
      record s .room x.key = none ∧ record s' .room x.key = some (.static .room) ∧ Creating j x halt ∧
      Steady (fun key => record s .room key = some (.static .room)) s s' ∧
      ((∀ key, record s .room key ≠ some (.static .room)) → Sole x s') ∧
      ∀ h' rectab k, halt = .waiting (.redis h' (.update .room rectab)) k →
        rectab.get (dbtable .room).pkey = x.key)
  := by
  obtain ⟨d, hd⟩ := inserted_resume .room h (.value x.key) s
  rw [Script.ofReply_ok_bind]
  split at hd
  · rw [Coroutine.resume_bind_of_raised hd]
    exact ⟨s, _, rfl, .inl ⟨rfl, _, rfl⟩⟩
  · next hcached =>
      have hnone : record s .room x.key = none := by
        rw [record, if_pos (key_truthy x)]
        exact Option.not_isSome_iff_eq_none.mp hcached
      let heap := s.heap.assign (.static .room) (dbtable .room).pkey x.key
      have hheap : keyedHeap .room x.key (.static .room) s = heap := if_pos (key_truthy x)
      have hkeyed : (heap.cells (.static .room)).get (dbtable .room).pkey = x.key := by
        rw [Heap.assign_cells_self, Table.get_set_self]
      have hcacheKey : cacheKey .room x.key (heap.cells (.static .room)) = x.key :=
        Value.orElse_of_truthy (key_truthy x) _
      split at hd
      · next hnil =>
          dsimp only [Answer.val] at hnil
          rw [hheap, hcacheKey] at hnil
          exact absurd hnil (key_ne_nil x)
      · dsimp only [Answer.val] at hd
        rw [hheap, hcacheKey] at hd
        rw [Coroutine.resume_bind_of_waiting hd]
        refine ⟨_, _, rfl, .inr ⟨hnone, ?_, ?_, ?_, ?_, ?_⟩⟩
        · rw [record_insert, if_pos ⟨rfl, key_truthy x⟩]
        · exact .inl ⟨h, _, rfl, hkeyed, fun _ => rfl⟩
        · constructor
          · intro key hrec
            rw [record_insert]
            split
            · rfl
            · exact hrec
          · intro hs key n hrec
            rw [record_insert] at hrec
            split at hrec
            · cases hrec
            · exact hs key n hrec
          · intro hs key rectab hrec hnot
            have hne : ¬ (key = x.key ∧ key.truthy = true) := by
              rintro ⟨rfl, -⟩
              cases hnone.symm.trans hrec
            rw [record_insert, if_neg hne]
            use hrec
            apply Heap.assign_cells_of_ne
            rintro rfl
            exact hnot hrec
        · intro hnot
          constructor
          · rw [record_insert, if_pos ⟨rfl, key_truthy x⟩]
          · intro key hrec
            rw [record_insert] at hrec
            split at hrec
            · next heq => exact heq.1
            · exact absurd hrec (hnot key)
          · exact hkeyed
        · rintro h' rectab k ⟨⟩
          exact hkeyed

/-- Assigning a field other than the key to a cached room. -/
theorem Steady.assign {rectab : Ref TName} (hrec : record s .room x.key = some rectab) (k v : Value) :
  Steady (fun key => record s .room key = record s .room x.key) s
    { s with heap := s.heap.assign rectab k v }
  := by
  constructor
  · exact fun _ h => h
  · exact fun h => h
  · intro hs key rectab' hrec' hnot
    use hrec'
    apply Heap.assign_cells_of_ne
    rintro rfl
    exact hnot (hrec'.trans hrec.symm)

theorem Sole.assign (h : Sole x s) {k : Value} (hk : k ≠ (dbtable .room).pkey) (rectab : Ref TName)
    (v : Value) :
  Sole x { s with heap := s.heap.assign rectab k v }
  := by
  use h.cached, h.only
  unfold Script.State.detail Script.State.deref
  dsimp only
  rcases eq_or_ne (.static .room) rectab with rfl | hne
  · rw [Heap.assign_cells_self, Table.get_set_of_ne _ hk.symm]
    exact h.keyed
  · rw [Heap.assign_cells_of_ne _ hne]
    exact h.keyed

/-- The record gets its owner and is updated. -/
theorem filling_resume (j : Job) (x : RoomId) (r : Except String Answer) (s : Script.State) :
  ∃ s' halt, ((ofReply r >>= fun _ => pure ⟨.room, x.key⟩) >>= ownRoom j.userId x).resume s
      = ⟨[], s', halt⟩ ∧
    Creating j x halt ∧ Steady (fun key => record s .room key = record s .room x.key) s s' ∧
    (∀ y, Sole y s → Sole y s') ∧
    (Sole x s → ∀ h rectab k, halt = .waiting (.redis h (.update .room rectab)) k →
      rectab.get (dbtable .room).pkey = x.key)
  := by
  match r with
  | .error e => exact ⟨s, _, rfl, trivial, .refl _ s, fun _ h => h, fun _ _ _ _ => nofun⟩
  | .ok a =>
      have hown : (ofReply (.ok a) >>= fun _ => pure ⟨.room, x.key⟩) >>= ownRoom j.userId x
          = set ⟨.room, x.key⟩ (.str "ownUserId") j.userId >>= fun _ =>
              updateTab .room x.key false >>= fun _ => pure (⟨.room, x.key⟩, x) := rfl
      rw [hown]
      obtain ⟨s₁, hassigned, hset⟩ := set_resume_cases ⟨.room, x.key⟩ (.str "ownUserId") j.userId s
      have hsteady : Steady (fun key => record s .room key = record s .room x.key) s s₁ := by
        obtain rfl | ⟨rectab, v, hrec, -, rfl⟩ := hassigned
        · exact .refl _ _
        · exact .assign hrec _ v
      have hsole : ∀ y, Sole y s → Sole y s₁ := by
        intro y hy
        obtain rfl | ⟨rectab, v, -, hk, rfl⟩ := hassigned
        · exact hy
        · exact hy.assign hk rectab v
      obtain hset | ⟨e, hset⟩ := hset
      · rw [Coroutine.resume_bind_of_returned hset]
        obtain ⟨e, hupdate⟩ := updateTab_resume .room x.key false
        have hupdate := hupdate s₁
        cases hturn : handlerInTurn s₁ with
        | none =>
            rw [hturn] at hupdate
            rw [Coroutine.resume_bind_of_raised hupdate]
            exact ⟨_, _, rfl, trivial, hsteady.turn _, fun y hy => (hsole y hy).turn _,
              fun _ _ _ _ => nofun⟩
        | some h =>
            rw [hturn] at hupdate
            cases hrec : record s₁ .room x.key with
            | none =>
                rw [hrec] at hupdate
                rw [Coroutine.resume_bind_of_returned hupdate]
                exact ⟨_, _, rfl, rfl, hsteady.turn _, fun y hy => (hsole y hy).turn _,
                  fun _ _ _ _ => nofun⟩
            | some rectab =>
                rw [hrec] at hupdate
                rw [Coroutine.resume_bind_of_waiting hupdate]
                refine ⟨_, _, rfl, .inr ⟨h, _, rfl, fun _ => rfl⟩, hsteady.turn _,
                  fun y hy => (hsole y hy).turn _, ?_⟩
                rintro hx h' rectab' k ⟨⟩
                have hx₁ := hsole x hx
                obtain rfl := Option.some.inj (hrec.symm.trans hx₁.cached)
                exact hx₁.keyed
      · rw [Coroutine.resume_bind_of_raised hset]
        exact ⟨_, _, rfl, trivial, hsteady, hsole, fun _ _ _ _ => nofun⟩

/-- The room is returned when its update is answered without an error. -/
theorem updating_resume (j : Job) (x : RoomId) (r : Except String Answer) (s : Script.State) :
  ∃ halt, (ofReply r >>= updated .room x.key false >>= fun _ => pure (⟨.room, x.key⟩, x)).resume s
      = ⟨[], s, halt⟩ ∧
    Creating j x halt ∧ ∀ q k, halt ≠ .waiting q k
  := by
  match r with
  | .error e => exact ⟨_, rfl, trivial, fun _ _ => nofun⟩
  | .ok a =>
      have hupdated : updated .room x.key false a = pure () := by
        rw [updated, Bool.and_false, if_neg Bool.false_ne_true]
      rw [Script.ofReply_ok_bind, hupdated]
      exact ⟨_, rfl, rfl, fun _ _ => nofun⟩

end Stretches

end RoomRecord

end Database
