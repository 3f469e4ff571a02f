import FWServer.Db.DbCache

/-!
# The database

`services/db/init.lua`: the functions `FGDB<tname>.query`, `insert`, `exist` and the methods
`get`, `set` and `update` of the records they hand out, over the cache and the pool of
`dbredis` services.
-/

open Lua Script DbCache

namespace Database

/-- The next service of the pool in turn. -/
def lredishandler : Script ℕ :=
  .read fun s : State =>
    let maxhandler := s.pool.handlers.length
    let numhandler := s.numhandler + 1
    .write { s with numhandler := numhandler } <|
      if maxhandler = 1 then
        .raise "attempt to perform 'n%0'"
      else
        let index := numhandler % (maxhandler - 1) + 1
        match s.pool.handlers[index - 1]? with
        | some handler => .ret handler
        | none => .raise "attempt to call a nil value"

/-- The service in turn in the state `s`; there is none when the pool has a single service. -/
def handlerInTurn (s : State) : Option ℕ :=
  let maxhandler := s.pool.handlers.length
  if maxhandler = 1 then none
  else s.pool.handlers[(s.numhandler + 1) % (maxhandler - 1)]?

/-- Moving on to the next service. -/
def nextInTurn (s : State) : State :=
  { s with numhandler := s.numhandler + 1 }

theorem lredishandler_eq :
  ∃ e : State → String, lredishandler = .read fun s =>
    .write (nextInTurn s) <|
      match handlerInTurn s with
      | some handler => .ret handler
      | none => .raise (e s)
  := by
  use fun s =>
    if s.pool.handlers.length = 1 then "attempt to perform 'n%0'"
    else "attempt to call a nil value"
  rw [lredishandler]
  congr 1
  funext s
  dsimp only [handlerInTurn]
  split
  · rfl
  · rw [Nat.add_sub_cancel]
    cases s.pool.handlers[(s.numhandler + 1) % (s.pool.handlers.length - 1)]? <;> rfl

/-- Caches the records a service answered a query with. -/
def cacheRecords (tname : TName) : List Table → Script Unit
  | [] => pure ()
  | rtab :: ret => do
      let tab ← newTable rtab
      let _ ← setRecord tname .nil tab true
      cacheRecords tname ret

/-- Caching an answer caches a copy of each of its records in turn. -/
theorem cacheRecords_cons_resume (tname : TName) (rtab : Table) (ret : List Table) (s : State) :
  let key := rtab.get (dbtable tname).pkey
  ∃ d, (cacheRecords tname (rtab :: ret)).resume s =
    if key = .nil then
      ⟨[], { s with heap := s.heap.alloc rtab, dtab := d }, .raised "table index is nil"⟩
    else
      (cacheRecords tname ret).resume { s with
        heap := s.heap.alloc rtab
        dtab := d
        cache := Function.update s.cache tname
          ((s.cache tname).insert key (.created s.heap.next)) }
  := by
  intro key
  let s' : State := { s with heap := s.heap.alloc rtab }
  let tab : Ref TName := .created s.heap.next
  have hsplit : (cacheRecords tname (rtab :: ret)).resume s
      = (setRecord tname .nil tab true >>= fun _ => cacheRecords tname ret).resume s' := rfl
  have hkey : cacheKey tname .nil ((keyedHeap tname .nil tab s').cells tab) = key := by
    have hcell : (keyedHeap tname .nil tab s').cells tab = rtab := Heap.alloc_cells_self _ _
    rw [hcell]
    rfl
  obtain ⟨d, hd⟩ := setRecord_resume tname .nil tab s'
  rw [hkey] at hd
  use d
  rw [hsplit]
  split at hd
  · next hnil =>
      rw [if_pos hnil]
      exact Coroutine.resume_bind_of_raised hd
  · next hnil =>
      rw [if_neg hnil]
      exact Coroutine.resume_bind_of_returned hd

/-! ### Functions on keys -/

/-- Whether a record of the key exists, in the cache or in redis. -/
def isExist (tname : TName) (reckey : Value) : Script Bool :=
  if reckey.truthy then do
    let rectab ← getRecord tname reckey
    if rectab.isSome then
      pure true
    else
      let redis ← lredishandler
      let rtab ← skynetCall redis (.query tname reckey)
      if rtab.tabs.isEmpty then
        pure false
      else
        cacheRecords tname rtab.tabs
        pure true
  else
    pure false

/-- A name that is cached exists; else a service is asked, and what it has found is cached. -/
theorem isExist_resume (tname : TName) {reckey : Value} (hkey : reckey.truthy = true) :
  ∃ e : State → String, ∀ s, (isExist tname reckey).resume s =
    if (record s tname reckey).isSome then ⟨[], s, .returned true⟩
    else
      match handlerInTurn s with
      | none => ⟨[], nextInTurn s, .raised (e s)⟩
      | some redis =>
          ⟨[], nextInTurn s, .waiting (.redis redis (.query tname reckey)) fun r =>
            ofReply r >>= fun rtab =>
              if rtab.tabs.isEmpty then pure false
              else do
                cacheRecords tname rtab.tabs
                pure true⟩
  := by
  obtain ⟨e, he⟩ := lredishandler_eq
  use e
  intro s
  rw [isExist, if_pos hkey]
  simp only [he, getRecord, Coroutine.read_bind, Coroutine.ret_bind, Coroutine.resume]
  split
  · rfl
  · simp only [Coroutine.write_bind, Coroutine.resume]
    cases handlerInTurn s <;> rfl

/-- The rest of `updateTab` once a service has answered. -/
def updated (tname : TName) (reckey : Value) (bRmCache : Bool) (ret : Answer) : Script Unit :=
  if ret.val.truthy && bRmCache then
    removeRecord tname reckey
  else
    pure ()

/-- Writes the cached record of the key to redis, and drops it from the cache afterwards when
`bRmCache` is set. -/
def updateTab (tname : TName) (reckey : Value) (bRmCache : Bool) : Script Unit := do
  let redis ← lredishandler
  match ← getRecord tname reckey with
  | none => pure ()
  | some rectab =>
      let s ← Coroutine.get
      let ret ← skynetCall redis (.update tname (s.deref rectab))
      updated tname reckey bRmCache ret

/-- The record is sent as it is when the update is issued. -/
theorem updateTab_resume (tname : TName) (reckey : Value) (bRmCache : Bool) :
  ∃ e : State → String, ∀ s, (updateTab tname reckey bRmCache).resume s =
    match handlerInTurn s with
    | none => ⟨[], nextInTurn s, .raised (e s)⟩
    | some redis =>
        match record s tname reckey with
        | none => ⟨[], nextInTurn s, .returned ()⟩
        | some rectab =>
            ⟨[], nextInTurn s, .waiting (.redis redis (.update tname (s.deref rectab))) fun r =>
              ofReply r >>= updated tname reckey bRmCache⟩
  := by
  obtain ⟨e, he⟩ := lredishandler_eq
  use e
  intro s
  simp only [updateTab, he, Coroutine.read_bind, Coroutine.write_bind, Coroutine.resume]
  cases handlerInTurn s with
  | none => rfl
  | some redis =>
      have hrecord : record (nextInTurn s) tname reckey = record s tname reckey := rfl
      simp only [Coroutine.ret_bind, getRecord, Coroutine.read_bind, Coroutine.resume, hrecord]
      cases record s tname reckey <;> rfl

/-! ### Records -/

/-- What `FGDB<tname>.query` and `FGDB<tname>.insert` return. -/
structure Handle where
  tabname : TName
  recordKey : Value
  deriving DecidableEq

/-- The rest of `command:init` once the service `redis` has answered an insert. -/
def inserted (tname : TName) (redis : ℕ) (ret : Answer) : Script Handle := do
  let rectab ← setDefaultRecord tname ret.val
  let s ← Coroutine.get
  let _ ← skynetCall redis (.update tname (s.deref rectab))
  pure ⟨tname, ret.val⟩

/-- The key an insert is answered with is cached with the table of the defaults, which is then
written back. -/
theorem inserted_resume (tname : TName) (redis : ℕ) (ret : Answer) (s : State) :
  let heap := keyedHeap tname ret.val (.static tname) s
  let key := cacheKey tname ret.val (heap.cells (.static tname))
  ∃ d, (inserted tname redis ret).resume s =
    if ((s.cache tname).lookup ret.val).isSome then
      ⟨[], s, .raised "cache already fill data!"⟩
    else if key = .nil then
      ⟨[], { s with heap := heap, dtab := d }, .raised "table index is nil"⟩
    else
      ⟨[], { s with
        heap := heap
        dtab := d
        cache := Function.update s.cache tname ((s.cache tname).insert key (.static tname)) },
        .waiting (.redis redis (.update tname (heap.cells (.static tname)))) fun r =>
          ofReply r >>= fun _ => pure ⟨tname, ret.val⟩⟩
  := by
  intro heap key
  obtain ⟨d, hd⟩ := setRecord_resume tname ret.val (.static tname) s
  use d
  cases hcached : (s.cache tname).lookup ret.val with
  | some ref =>
      have hraised : (setDefaultRecord tname ret.val).resume s
          = ⟨[], s, .raised "cache already fill data!"⟩ :=
        setDefaultRecord_resume_of_cached (Option.isSome_iff_exists.mpr ⟨ref, hcached⟩)
      exact Coroutine.resume_bind_of_raised hraised
  | none =>
      have hset := setDefaultRecord_resume_of_not_cached hcached
      rw [hd] at hset
      rw [Option.isSome_none, if_neg Bool.false_ne_true, inserted]
      split
      · next hnil =>
          rw [if_pos hnil] at hset
          exact Coroutine.resume_bind_of_raised hset
      · next hnil =>
          rw [if_neg hnil] at hset
          rw [Coroutine.resume_bind_of_returned hset]
          rfl

/-- The rest of `command:init` once a service has answered a query. -/
def queried (tname : TName) (key : Value) (ret : Answer) : Script Handle := do
  cacheRecords tname ret.tabs
  pure ⟨tname, key⟩

/-- `command:init`, the first call on a new handle: it makes sure that the record of the key is
cached, loading it from redis or, with `binsert`, creating it. -/
def init (tname : TName) (key : Value) (binsert : Bool) : Script Handle := do
  let redis ← lredishandler
  let rectab ← getRecord tname key
  if rectab.isSome then
    pure ⟨tname, key⟩
  else if binsert then
    if key.truthy || (dbtable tname).auto then
      let ret ← skynetCall redis (.insert tname key)
      inserted tname redis ret
    else
      Coroutine.error "the autoincrement table must insert an not nil key!"
  else
    let ret ← skynetCall redis (.query tname key)
    queried tname key ret

/-- `FGDB<tname>.query(key)`. -/
def query (tname : TName) (key : Value) : Script Handle :=
  init tname key false

/-- `FGDB<tname>.insert(key)`. -/
def insert (tname : TName) (key : Value) : Script Handle :=
  init tname key true

/-- A handle is ready at once when its record is cached; else a service is asked. -/
theorem init_resume (tname : TName) (key : Value) (binsert : Bool) :
  ∃ e : State → String, ∀ s, (init tname key binsert).resume s =
    match handlerInTurn s with
    | none => ⟨[], nextInTurn s, .raised (e s)⟩
    | some redis =>
        if (record s tname key).isSome then ⟨[], nextInTurn s, .returned ⟨tname, key⟩⟩
        else if binsert then
          if key.truthy || (dbtable tname).auto then
            ⟨[], nextInTurn s, .waiting (.redis redis (.insert tname key)) fun r =>
              ofReply r >>= inserted tname redis⟩
          else
            ⟨[], nextInTurn s,
              .raised "the autoincrement table must insert an not nil key!"⟩
        else
          ⟨[], nextInTurn s, .waiting (.redis redis (.query tname key)) fun r =>
            ofReply r >>= queried tname key⟩
  := by
  obtain ⟨e, he⟩ := lredishandler_eq
  use e
  intro s
  simp only [init, he, Coroutine.read_bind, Coroutine.write_bind, Coroutine.resume]
  cases handlerInTurn s with
  | none => rfl
  | some redis =>
      have hrecord : record (nextInTurn s) tname key = record s tname key := rfl
      simp only [Coroutine.ret_bind, getRecord, Coroutine.read_bind, Coroutine.resume, hrecord]
      split
      · rfl
      · split
        · split <;> rfl
        · rfl

/-- `FGDB<tname>.exist(key)`. -/
def exist (tname : TName) (key : Value) : Script Bool :=
  isExist tname key

/-- The value of a field in the cached record of a handle. -/
def rawField (s : State) (h : Handle) (field : Value) : Value :=
  match record s h.tabname h.recordKey with
  | none => .nil
  | some rectab => (s.deref rectab).get field

/-- The message of the assertion that a field is one of the table. -/
def notDefined (k : Value) : String :=
  "db table not define the fieldname=" ++ (k.orElse (.str "nil")).tostring

/-- The method `get`: the value of a field, the default of the table when it has none. -/
def get (h : Handle) (k : Value) : Script Value := do
  let s ← Coroutine.get
  let field := rawField s h k
  let default := (s.detail h.tabname).get k
  if default.truthy then
    pure (field.orElse default)
  else
    Coroutine.error (notDefined k)

/-- What `get` returns in the state `s`, unless it raises. -/
def getValue (s : State) (h : Handle) (k : Value) : Option Value :=
  let default := (s.detail h.tabname).get k
  if default.truthy then some ((rawField s h k).orElse default) else none

theorem get_eq (h : Handle) (k : Value) :
  get h k = .read fun s =>
    match getValue s h k with
    | some v => .ret v
    | none => .raise (notDefined k)
  := by
  have hread : get h k = .read fun s : State =>
      if ((s.detail h.tabname).get k).truthy then
        .ret ((rawField s h k).orElse ((s.detail h.tabname).get k))
      else .raise (notDefined k) := rfl
  rw [hread]
  congr 1
  funext s
  rw [getValue]
  split <;> rfl

/-- `get` returns a value that counts as true. -/
theorem getValue_truthy {s : State} {h : Handle} {k v : Value} (hv : getValue s h k = some v) :
  v.truthy = true
  := by
  rw [getValue] at hv
  split at hv
  · next hdefault =>
      rw [← Option.some.inj hv, Value.orElse]
      split
      · assumption
      · exact hdefault
  · cases hv

/-- How `get` ends depends on the field in the record and on its default. -/
theorem get_resume_congr {s s' : State} {h : Handle} {k : Value}
    (hfield : rawField s' h k = rawField s h k)
    (hdetail : s'.detail h.tabname = s.detail h.tabname) :
  ((get h k).resume s').halt = ((get h k).resume s).halt
  := by
  simp only [get_eq, Coroutine.resume, getValue, hfield, hdetail]
  split <;> rfl

/-- `command:set`. -/
def commandSet (h : Handle) (field value : Value) : Script Unit :=
  if field = (dbtable h.tabname).pkey then
    Coroutine.error "the primarykey can not be modified!"
  else do
    match ← getRecord h.tabname h.recordKey with
    | none => pure ()
    | some rectab =>
        let s ← Coroutine.get
        assign rectab field (value.orElse ((s.detail h.tabname).get field))

/-- The method `set`: assigns a field, the default of the table for a value that is not
true. -/
def set (h : Handle) (k fv : Value) : Script Unit := do
  let s ← Coroutine.get
  let default := (s.detail h.tabname).get k
  if default.truthy then
    commandSet h k (fv.orElse default)
  else
    Coroutine.error (notDefined k)

/-- A field is assigned only when the table has it, it is not the primary key, and the record is
cached. -/
theorem set_resume (h : Handle) (k fv : Value) (s : State) :
  (set h k fv).resume s =
    let default := (s.detail h.tabname).get k
    if default.truthy then
      if k = (dbtable h.tabname).pkey then
        ⟨[], s, .raised "the primarykey can not be modified!"⟩
      else
        match record s h.tabname h.recordKey with
        | none => ⟨[], s, .returned ()⟩
        | some rectab =>
            ⟨[], { s with heap := s.heap.assign rectab k ((fv.orElse default).orElse default) },
              .returned ()⟩
    else
      ⟨[], s, .raised (notDefined k)⟩
  := by
  simp only [set, commandSet, Coroutine.get, Coroutine.read_bind, Coroutine.ret_bind,
    Coroutine.resume]
  split
  · split
    · rfl
    · simp only [getRecord, Coroutine.read_bind, Coroutine.ret_bind, Coroutine.resume]
      cases record s h.tabname h.recordKey <;> rfl
  · rfl

/-- An assignment ends at once, and changes one field of the record of the handle at most. -/
theorem set_resume_cases (h : Handle) (k fv : Value) (s : State) :
  ∃ s', (s' = s ∨ ∃ rectab v, record s h.tabname h.recordKey = some rectab ∧
      k ≠ (dbtable h.tabname).pkey ∧ s' = { s with heap := s.heap.assign rectab k v }) ∧
    ((set h k fv).resume s = ⟨[], s', .returned ()⟩ ∨
      ∃ e, (set h k fv).resume s = ⟨[], s', .raised e⟩)
  := by
  rw [set_resume]
  dsimp only
  split
  · split
    · exact ⟨s, .inl rfl, .inr ⟨_, rfl⟩⟩
    · next hk =>
        cases hrec : record s h.tabname h.recordKey with
        | none => exact ⟨s, .inl rfl, .inl rfl⟩
        | some rectab => exact ⟨_, .inr ⟨rectab, _, rfl, hk, rfl⟩, .inl rfl⟩
  · exact ⟨s, .inl rfl, .inr ⟨_, rfl⟩⟩

/-- The method `update`. -/
def update (h : Handle) : Script Unit :=
  if h.recordKey.truthy then
    updateTab h.tabname h.recordKey false
  else
    pure ()

/-! ### Shutting down -/

/-- `g_database.destroy`.  The callback of `updateAll` passes on the global `reckey`, which is
`nil`, and not its own argument. -/
def destroy : Script Unit := do
  Coroutine.modify fun s : State => { s with isdestroyAll := true }
  updateAll fun tname _rkey => updateTab tname .nil true
  let redis ← lredishandler
  let _ ← skynetCall redis .closeAll

end Database
