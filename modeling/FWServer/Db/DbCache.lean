import FWServer.Db.Script

/-!
# The cache of records

`services/db/dbcache.lua`: the records in memory, by table and primary key, and the times at
which they are next due.
-/

open Lua Script

namespace DbCache

/-! ### The records by key -/

section Lookup

variable (cache : TName → AList fun _ : Value => Ref TName) (tname tname' : TName)
  (key key' : Value)

theorem lookup_insert (rectab : Ref TName) :
  (Function.update cache tname ((cache tname).insert key rectab) tname').lookup key'
    = if tname' = tname ∧ key' = key then some rectab else (cache tname').lookup key'
  := by
  rcases eq_or_ne tname' tname with rfl | ht
  · rw [Function.update_self]
    rcases eq_or_ne key' key with rfl | hk
    · rw [AList.lookup_insert, if_pos ⟨rfl, rfl⟩]
    · rw [AList.lookup_insert_ne hk, if_neg fun h => hk h.2]
  · rw [Function.update_of_ne ht, if_neg fun h => ht h.1]

theorem lookup_erase :
  (Function.update cache tname ((cache tname).erase key) tname').lookup key'
    = if tname' = tname ∧ key' = key then none else (cache tname').lookup key'
  := by
  rcases eq_or_ne tname' tname with rfl | ht
  · rw [Function.update_self]
    rcases eq_or_ne key' key with rfl | hk
    · rw [AList.lookup_erase, if_pos ⟨rfl, rfl⟩]
    · rw [AList.lookup_erase_ne hk, if_neg fun h => hk h.2]
  · rw [Function.update_of_ne ht, if_neg fun h => ht h.1]

end Lookup

/-! ### The cache -/

/-- Puts the times of the key `key` one period ahead. -/
def resetUpdateFunc (tt : TName) (key : Value) (s : State) : State :=
  { s with
    dtab := Function.update s.dtab tt
      ((s.dtab tt).insert key ⟨s.time + s.updateTime, s.time + s.deleteTime⟩) }

/-- Puts the times of the key `reckey` one period ahead, those of all cached keys when no key
is given. -/
def resetUpdateData (tname : TName) (reckey : Value) (s : State) : State :=
  if reckey.truthy then resetUpdateFunc tname reckey s
  else (s.cache tname).keys.foldl (fun s rkey => resetUpdateFunc tname rkey s) s

/-- Nothing but the times changes. -/
theorem resetUpdateData_eq (tname : TName) (reckey : Value) (s : State) :
  ∃ d, resetUpdateData tname reckey s = { s with dtab := d }
  := by
  have hfold : ∀ (keys : List Value) (s : State),
      ∃ d, keys.foldl (fun s rkey => resetUpdateFunc tname rkey s) s = { s with dtab := d } := by
    intro keys
    induction keys with
    | nil => exact fun s => ⟨s.dtab, rfl⟩
    | cons k keys ih =>
        intro s
        obtain ⟨d, hd⟩ := ih (resetUpdateFunc tname k s)
        exact ⟨d, hd⟩
  rw [resetUpdateData]
  split
  · exact ⟨_, rfl⟩
  · apply hfold

/-- Drops a record from the cache. -/
def removeRecord (tname : TName) (reckey : Value) : Script Unit :=
  Coroutine.modify fun s : State =>
    { s with cache := Function.update s.cache tname ((s.cache tname).erase reckey) }

/-- The cached record of a key. -/
def record (s : State) (tname : TName) (reckey : Value) : Option (Ref TName) :=
  if reckey.truthy then (s.cache tname).lookup reckey else none

/-- Only keys that count as true have a cached record. -/
theorem record_truthy {s : State} {tname : TName} {reckey : Value} {rectab : Ref TName}
    (h : record s tname reckey = some rectab) :
  reckey.truthy = true
  := by
  rw [record] at h
  split at h
  · assumption
  · cases h

/-- The cached record of a key. -/
def getRecord (tname : TName) (reckey : Value) : Script (Option (Ref TName)) :=
  .read fun s : State => .ret (record s tname reckey)

/-- The second half of `setRecord`: puts the table `tab` under its key. -/
def put (tname : TName) (key : Value) (tab : Ref TName) : Script (Ref TName) := do
  let s ← Coroutine.get
  if ((s.cache tname).lookup key).isNone then
    Coroutine.modify (resetUpdateData tname key)
  if key = .nil then
    Coroutine.error "table index is nil"
  else
    Coroutine.modify fun s : State =>
      { s with cache := Function.update s.cache tname ((s.cache tname).insert key tab) }
    pure tab

/-- Caches the record `rectab`, under the key `reckey` written into it when one is given,
under the key it has otherwise.  The record is cached itself when `bCopyTab` is set, and a
copy of it when not. -/
def setRecord (tname : TName) (reckey : Value) (rectab : Ref TName) (bCopyTab : Bool) :
    Script (Ref TName) := do
  let prikey := (dbtable tname).pkey
  let s ← Coroutine.get
  let tab ← if bCopyTab then pure rectab else newTable (s.deref rectab)
  if reckey.truthy then assign tab prikey reckey
  let s ← Coroutine.get
  put tname (reckey.orElse ((s.deref tab).get prikey)) tab

/-- The key a record is cached under. -/
def cacheKey (tname : TName) (reckey : Value) (rectab : Table) : Value :=
  reckey.orElse (rectab.get (dbtable tname).pkey)

/-- The heap once the key `reckey` has been written into the table `tab`, if there is one. -/
def keyedHeap (tname : TName) (reckey : Value) (tab : Ref TName) (s : State) : Heap TName :=
  if reckey.truthy then s.heap.assign tab (dbtable tname).pkey reckey else s.heap

theorem put_resume (tname : TName) (key : Value) (tab : Ref TName) (s : State) :
  ∃ d, (put tname key tab).resume s =
    if key = .nil then
      ⟨[], { s with dtab := d }, .raised "table index is nil"⟩
    else
      ⟨[], { s with
        dtab := d
        cache := Function.update s.cache tname ((s.cache tname).insert key tab) },
        .returned tab⟩
  := by
  obtain ⟨d, hd⟩ := resetUpdateData_eq tname key s
  cases hnone : ((s.cache tname).lookup key).isNone with
  | true =>
      use d
      have hput : (put tname key tab).resume s =
          (if key = .nil then Coroutine.error "table index is nil" else do
            Coroutine.modify fun s : State =>
              { s with cache := Function.update s.cache tname ((s.cache tname).insert key tab) }
            pure tab : Script (Ref TName)).resume (resetUpdateData tname key s) := by
        simp only [put, Coroutine.get, Coroutine.read_bind, Coroutine.ret_bind, Coroutine.resume,
          hnone, if_true]
        rfl
      rw [hput, hd]
      split <;> rfl
  | false =>
      use s.dtab
      simp only [put, Coroutine.get, Coroutine.read_bind, Coroutine.ret_bind, Coroutine.resume,
        hnone, Bool.false_eq_true, if_false]
      split <;> rfl

/-- Caching a table itself raises an error without a key, and puts it under its key with one. -/
theorem setRecord_resume (tname : TName) (reckey : Value) (tab : Ref TName) (s : State) :
  let heap := keyedHeap tname reckey tab s
  let key := cacheKey tname reckey (heap.cells tab)
  ∃ d, (setRecord tname reckey tab true).resume s =
    if key = .nil then
      ⟨[], { s with heap := heap, dtab := d }, .raised "table index is nil"⟩
    else
      ⟨[], { s with
        heap := heap
        dtab := d
        cache := Function.update s.cache tname ((s.cache tname).insert key tab) },
        .returned tab⟩
  := by
  intro heap key
  have hput := put_resume tname key tab { s with heap := heap }
  have hsplit : (setRecord tname reckey tab true).resume s
      = (put tname key tab).resume { s with heap := heap } := by
    dsimp only [heap, key, keyedHeap]
    cases htruthy : reckey.truthy <;>
      simp only [setRecord, htruthy, cacheKey] <;> rfl
  rw [hsplit]
  exact hput

/-- Caches the default record of a table under the key `reckey`. -/
def setDefaultRecord (tname : TName) (reckey : Value) : Script (Ref TName) := do
  let s ← Coroutine.get
  if ((s.cache tname).lookup reckey).isSome then
    Coroutine.error "cache already fill data!"
  else
    setRecord tname reckey (.static tname) true

/-- A key that is cached has no default record put under it. -/
theorem setDefaultRecord_resume_of_cached {tname : TName} {reckey : Value} {s : State}
    (h : ((s.cache tname).lookup reckey).isSome = true) :
  (setDefaultRecord tname reckey).resume s = ⟨[], s, .raised "cache already fill data!"⟩
  := by
  simp only [setDefaultRecord, Coroutine.get, Coroutine.read_bind, Coroutine.ret_bind,
    Coroutine.resume, h, if_true]
  rfl

/-- A key that is not cached has the table of the defaults itself put under it. -/
theorem setDefaultRecord_resume_of_not_cached {tname : TName} {reckey : Value} {s : State}
    (h : (s.cache tname).lookup reckey = none) :
  (setDefaultRecord tname reckey).resume s
    = (setRecord tname reckey (.static tname) true).resume s
  := by
  simp only [setDefaultRecord, Coroutine.get, Coroutine.read_bind, Coroutine.ret_bind,
    Coroutine.resume, h, Option.isSome_none, Bool.false_eq_true, if_false]

/-- Calls `checkupdatefunc` on the key of every cached record of every table. -/
def updateAll (checkupdatefunc : TName → Value → Script Unit) : Script Unit :=
  [TName.account, .user, .room, .item].forM fun tname => do
    let s ← Coroutine.get
    (s.cache tname).keys.forM fun reckey => checkupdatefunc tname reckey

end DbCache
