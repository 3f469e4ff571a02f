import FWServer.Db.Database
import FWServer.Kernel.Machine
import Mathlib.Algebra.Order.Ring.Int

/-!
# Records that are due

`services/db/dbcache.lua` and `services/db/init.lua`: a timer goes through the tables, one round after
another, and is to write back the records whose time has come and to drop those that have not been used for
long.  `checkCache` looks at the tables that have not been visited in the round, up to one with records that
are due; `_checkCache` looks for these records in a table.

`_checkCache` takes the records whose time has *not* come, and puts the global variable `reckey`, which is
`nil`, in its lists.  So the rounds are as they should be, but no record is ever written back or dropped, and
every record of a table that is visited is put off.  That is right only for a table whose records have all been
used in the same second.
-/

open Lua Script

namespace DbCache

/-! ### A table -/

/-- The global variable `reckey`, which is named here instead of a key. -/
def reckey : Value := .nil

/-- `table.insert(t, v)`, which does nothing for `nil`. -/
def tableInsert (t : List Value) (v : Value) : List Value :=
  if v = .nil then t else t ++ [v]

/-- What the loop of `_checkCache` has so far. -/
structure Check where
  uptab : List Value
  deltab : List Value
  temp : Bool
  dtab : AList fun _ : Value => DueTime

section Table

variable (s : State) (nowt : ℤ)

/-- A test of the loop: when the time `due` of a record is not before `nowt`, the lists are changed by `note`
and the times by `reset`. -/
def test (due : DueTime → ℤ) (note : Check → Check) (reset : DueTime → DueTime) (rkey : Value)
    (c : Check) : Check :=
  match c.dtab.lookup rkey with
  | none => c
  | some tab =>
      if due tab ≥ nowt then
        { note c with
          temp := true
          dtab := c.dtab.insert rkey (reset tab) }
      else c

/-- The first test of the loop. -/
def checkUp : Value → Check → Check :=
  test nowt DueTime.uptime (fun c => { c with uptab := tableInsert c.uptab reckey })
    fun tab => { tab with uptime := s.time + s.updateTime }

/-- The second test of the loop. -/
def checkDel : Value → Check → Check :=
  test nowt DueTime.deltime (fun c => { c with deltab := tableInsert c.deltab reckey })
    fun tab => { tab with deltime := s.time + s.deleteTime }

/-- The loop of `_checkCache`, over the keys in the order `pairs` visits them. -/
def checkRecords : List Value → Check → Check
  | [], c => c
  | rkey :: order, c => checkRecords order (checkDel s nowt rkey (checkUp s nowt rkey c))

/-- `dbcache._checkCache` -/
def checkTable (order : List Value) (tname : TName) :
    Option (List Value × List Value) × State :=
  let c := checkRecords s nowt order ⟨[], [], false, s.dtab tname⟩
  (if c.temp then some (c.uptab, c.deltab) else none,
    { s with dtab := Function.update s.dtab tname c.dtab })

end Table

/-! ### The tables in turn -/

/-- The tables of the cache. -/
def tables : List TName := [.account, .user, .room, .item]

/-- The first loop of `checkCache`, over the tables in the order `pairs` visits them; `read` are those marked
with `__IS_CHECK_TABLE_READED`. -/
def checkTables (orders : TName → List Value) (nowt : ℤ) : List TName → (TName → Bool) → State →
    Option (TName × List Value × List Value) × (TName → Bool) × State
  | [], read, s => (none, read, s)
  | tname :: order, read, s =>
      if read tname then checkTables orders nowt order read s
      else
        let read := Function.update read tname true
        let x := checkTable s nowt (orders tname) tname
        match x.1 with
        | some (uptab, deltab) => (some (tname, uptab, deltab), read, x.2)
        | none => checkTables orders nowt order read x.2

/-- `dbcache.checkCache` -/
def checkCache (orders : TName → List Value) (order : List TName) (read : TName → Bool) (s : State) :
    Option (TName × List Value × List Value) × (TName → Bool) × State :=
  match checkTables orders s.time order read s with
  | (some found, read, s) => (some found, read, s)
  | (none, _, s) => (none, fun _ => false, s)

end DbCache

namespace Database

open DbCache

/-- The calls `timer_checkdb` makes of `updateTab` for a table: the key, which is the global `reckey`, and
whether the record is to be dropped. -/
def updateCalls (tname : TName) (uptab deltab : List Value) : List (Value × Bool) :=
  uptab.map (fun _rkey => (reckey, false)) ++
    if (dbtable tname).cache then [] else deltab.map fun _rkey => (reckey, true)

/-- `dbfunc.timer_checkdb` up to its call of `addtimer`, with the tables that are marked. -/
def timerCheckdb (orders : TName → List Value) (order : List TName) (read : TName → Bool) :
    Script (TName → Bool) := do
  let s ← Coroutine.get
  if s.isdestroyAll then
    pure read
  else
    let x := checkCache orders order read s
    Coroutine.modify fun _ => x.2.2
    match x.1 with
    | some (tname, uptab, deltab) =>
        (updateCalls tname uptab deltab).forM fun call => updateTab tname call.1 call.2
        pure x.2.1
    | none => pure x.2.1

end Database

namespace DueRecords

open DbCache Database

/-! ### Visits -/

/-- A visit of a table: the time, the state before it, what has been found, the state after it, and the calls of
`updateTab`. -/
structure Visit where
  tname : TName
  nowt : ℤ
  before : State
  uptab : List Value
  deltab : List Value
  after : State
  calls : List (Value × Bool)

/-- The visit that `_checkCache` makes. -/
def visit (order : List Value) (tname : TName) (nowt : ℤ) (s : State) : Visit :=
  let x := checkTable s nowt order tname
  let tabs := x.1.getD ([], [])
  ⟨tname, nowt, s, tabs.1, tabs.2, x.2, updateCalls tname tabs.1 tabs.2⟩

/-- The visits that the first loop of `checkCache` makes. -/
def visits (orders : TName → List Value) (nowt : ℤ) : List TName → (TName → Bool) → State → List Visit
  | [], _, _ => []
  | tname :: order, read, s =>
      if read tname then visits orders nowt order read s
      else
        let x := checkTable s nowt (orders tname) tname
        visit (orders tname) tname nowt s ::
          match x.1 with
          | some _ => []
          | none => visits orders nowt order (Function.update read tname true) x.2

/-- The records of a table whose time, by `due`, has come. -/
def Due (due : DueTime → ℤ) (x : Visit) (key : Value) : Prop :=
  ∃ tab, (x.before.dtab x.tname).lookup key = some tab ∧ due tab ≤ x.nowt

/-- The records that are due are found, each once, these and no others are put off, and they are written back,
and dropped unless the table is to stay in memory. -/
structure Visit.Right (x : Visit) : Prop where
  uptab_nodup : x.uptab.Nodup
  uptab : ∀ key, key ∈ x.uptab ↔ Due DueTime.uptime x key
  deltab_nodup : x.deltab.Nodup
  deltab : ∀ key, key ∈ x.deltab ↔ Due DueTime.deltime x key
  times : ∀ key, (x.after.dtab x.tname).lookup key =
    ((x.before.dtab x.tname).lookup key).map fun tab =>
      ⟨if tab.uptime ≤ x.nowt then x.before.time + x.before.updateTime else tab.uptime,
        if tab.deltime ≤ x.nowt then x.before.time + x.before.deleteTime else tab.deltime⟩
  others : ∀ tname, tname ≠ x.tname → x.after.dtab tname = x.before.dtab tname
  calls_nodup : x.calls.Nodup
  written : ∀ key, (key, false) ∈ x.calls ↔ Due DueTime.uptime x key
  dropped : ∀ key, (key, true) ∈ x.calls ↔
    (dbtable x.tname).cache = false ∧ Due DueTime.deltime x key

/-- No record of the table is due, and each has been used in this second. -/
def Fresh (tname : TName) (nowt : ℤ) (s : State) : Prop :=
  ∀ key tab, (s.dtab tname).lookup key = some tab →
    nowt < tab.uptime ∧ tab.uptime = s.time + s.updateTime ∧
    nowt < tab.deltime ∧ tab.deltime = s.time + s.deleteTime

/-! ### The loop over a table -/

section Loop

variable (s : State) (nowt : ℤ)

theorem tableInsert_reckey (l : List Value) :
  tableInsert l reckey = l
  := if_pos rfl

section Test

variable (due : DueTime → ℤ) (note : Check → Check) (reset : DueTime → DueTime) (rkey : Value)
  (c : Check)

/-- A test changes nothing, or notes that it has. -/
theorem test_eq_or_temp :
  test nowt due note reset rkey c = c ∨ (test nowt due note reset rkey c).temp = true
  := by
  unfold test
  split
  · left
    rfl
  · split
    · right
      rfl
    · left
      rfl

theorem test_lists (hup : (note c).uptab = c.uptab) (hdel : (note c).deltab = c.deltab) :
  (test nowt due note reset rkey c).uptab = c.uptab ∧
    (test nowt due note reset rkey c).deltab = c.deltab
  := by
  unfold test
  split
  · use rfl
  · split
    · use hup
    · use rfl

theorem test_lookup (key : Value) :
  (test nowt due note reset rkey c).dtab.lookup key =
    if key = rkey then (c.dtab.lookup key).map fun tab => if due tab ≥ nowt then reset tab else tab
    else c.dtab.lookup key
  := by
  unfold test
  split
  · next hnone =>
      split
      · next heq =>
          rw [heq, hnone]
          rfl
      · rfl
  · next tab hsome =>
      rcases eq_or_ne key rkey with rfl | hne
      · rw [if_pos rfl, hsome, Option.map_some]
        split
        · apply AList.lookup_insert
        · exact hsome
      · rw [if_neg hne]
        split
        · apply AList.lookup_insert_ne hne
        · rfl

end Test

/-- One turn of the loop changes nothing, or notes that it has. -/
theorem check_eq_or_temp (rkey : Value) (c : Check) :
  checkDel s nowt rkey (checkUp s nowt rkey c) = c ∨
    (checkDel s nowt rkey (checkUp s nowt rkey c)).temp = true
  := by
  have hup : checkUp s nowt rkey c = c ∨ (checkUp s nowt rkey c).temp = true := by
    apply test_eq_or_temp
  have hdel : checkDel s nowt rkey (checkUp s nowt rkey c) = checkUp s nowt rkey c ∨
      (checkDel s nowt rkey (checkUp s nowt rkey c)).temp = true := by
    apply test_eq_or_temp
  rcases hdel with heq | htemp
  · rw [heq]
    exact hup
  · right
    exact htemp

/-- The lists stay as they are. -/
theorem checkRecords_lists (order : List Value) (c : Check) :
  (checkRecords s nowt order c).uptab = c.uptab ∧ (checkRecords s nowt order c).deltab = c.deltab
  := by
  induction order generalizing c with
  | nil => exact ⟨rfl, rfl⟩
  | cons rkey order ih =>
      have hup : (checkUp s nowt rkey c).uptab = c.uptab ∧ (checkUp s nowt rkey c).deltab = c.deltab :=
        test_lists _ _ _ _ _ _ (tableInsert_reckey _) rfl
      have hdel : (checkDel s nowt rkey (checkUp s nowt rkey c)).uptab = (checkUp s nowt rkey c).uptab ∧
          (checkDel s nowt rkey (checkUp s nowt rkey c)).deltab = (checkUp s nowt rkey c).deltab :=
        test_lists _ _ _ _ _ _ rfl (tableInsert_reckey _)
      have hrest := ih (checkDel s nowt rkey (checkUp s nowt rkey c))
      rw [checkRecords]
      use hrest.1.trans (hdel.1.trans hup.1), hrest.2.trans (hdel.2.trans hup.2)

theorem checkRecords_temp (order : List Value) {c : Check} (h : c.temp = true) :
  (checkRecords s nowt order c).temp = true
  := by
  induction order generalizing c with
  | nil => exact h
  | cons rkey order ih =>
      apply ih
      rcases check_eq_or_temp s nowt rkey c with heq | htemp
      · rw [heq]
        exact h
      · exact htemp

/-- The times of a record that is put off. -/
def putOff (tab : DueTime) : DueTime where
  uptime := if tab.uptime ≥ nowt then s.time + s.updateTime else tab.uptime
  deltime := if tab.deltime ≥ nowt then s.time + s.deleteTime else tab.deltime

/-- One turn of the loop puts off the record of its key. -/
theorem check_lookup (rkey key : Value) (c : Check) :
  (checkDel s nowt rkey (checkUp s nowt rkey c)).dtab.lookup key =
    if key = rkey then (c.dtab.lookup key).map (putOff s nowt) else c.dtab.lookup key
  := by
  rw [checkDel, test_lookup, checkUp, test_lookup]
  split
  · rw [Option.map_map]
    congr 1
    funext tab
    dsimp only [Function.comp_apply, putOff]
    split_ifs
    · rfl
    · rfl
    · rfl
    · rfl
  · rfl

/-- The loop puts off the records it goes through. -/
theorem checkRecords_lookup {order : List Value} (h : order.Nodup) (key : Value) (c : Check) :
  (checkRecords s nowt order c).dtab.lookup key =
    if key ∈ order then (c.dtab.lookup key).map (putOff s nowt) else c.dtab.lookup key
  := by
  induction order generalizing c with
  | nil => rfl
  | cons rkey order ih =>
      obtain ⟨hnot, hnodup⟩ := List.nodup_cons.mp h
      rw [checkRecords, ih hnodup, check_lookup]
      rcases eq_or_ne key rkey with rfl | hne
      · rw [if_neg hnot, if_pos rfl, if_pos List.mem_cons_self]
      · have hmem : key ∈ rkey :: order ↔ key ∈ order := by
          rw [List.mem_cons, or_iff_right hne]
        rw [if_neg hne]
        simp only [hmem]

/-- A record whose time has not come is noted. -/
theorem temp_of_ahead {order : List Value} {key : Value} (h : key ∈ order) {c : Check} {tab : DueTime}
    (hlookup : c.dtab.lookup key = some tab) (hahead : tab.uptime ≥ nowt) :
  (checkRecords s nowt order c).temp = true
  := by
  induction order generalizing c with
  | nil => cases h
  | cons rkey order ih =>
      rw [checkRecords]
      rcases check_eq_or_temp s nowt rkey c with heq | htemp
      · rcases List.mem_cons.mp h with rfl | hmem
        · have hup : (checkUp s nowt key c).temp = true := by
            unfold checkUp test
            rw [hlookup]
            dsimp only
            rw [if_pos hahead]
          apply checkRecords_temp
          rcases test_eq_or_temp nowt DueTime.deltime _ _ key (checkUp s nowt key c) with hdel | hdel
          · rw [checkDel, hdel]
            exact hup
          · exact hdel
        · rw [heq]
          apply ih hmem hlookup
      · apply checkRecords_temp _ _ _ htemp

end Loop

/-! ### The visit of a table -/

section Visits

variable {s : State} {tname : TName} {order : List Value}

theorem checkTable_found (s : State) (nowt : ℤ) (order : List Value) (tname : TName) :
  (checkTable s nowt order tname).1 =
    if (checkRecords s nowt order ⟨[], [], false, s.dtab tname⟩).temp then some ([], []) else none
  := by
  obtain ⟨hup, hdel⟩ := checkRecords_lists s nowt order ⟨[], [], false, s.dtab tname⟩
  unfold checkTable
  dsimp only
  rw [hup, hdel]

/-- Nothing is found. -/
theorem visit_found (s : State) (nowt : ℤ) (order : List Value) (tname : TName) :
  (visit order tname nowt s).uptab = [] ∧ (visit order tname nowt s).deltab = [] ∧
    (visit order tname nowt s).calls = []
  := by
  have htabs : (checkTable s nowt order tname).1.getD ([], []) = ([], []) := by
    rw [checkTable_found]
    split
    · rfl
    · rfl
  unfold visit
  dsimp only
  rw [htabs]
  use rfl, rfl
  unfold updateCalls
  split
  · rfl
  · rfl

/-- All records of the table are put off. -/
theorem visit_lookup (h : order.Perm (s.dtab tname).keys) (nowt : ℤ) (key : Value) :
  ((visit order tname nowt s).after.dtab tname).lookup key =
    ((s.dtab tname).lookup key).map (putOff s nowt)
  := by
  have hnodup : order.Nodup := h.nodup_iff.mpr (s.dtab tname).keys_nodup
  change (Function.update s.dtab tname _ tname).lookup key = _
  rw [Function.update_self, checkRecords_lookup s nowt hnodup]
  split
  · rfl
  · next hnot =>
      have hnone : (s.dtab tname).lookup key = none := by
        apply AList.lookup_eq_none.mpr
        intro hkey
        exact hnot (h.mem_iff.mpr (AList.mem_keys.mpr hkey))
      rw [hnone]
      rfl

/-- A visit is right precisely when no record is due and each has been used in this second. -/
theorem visit_right_iff (h : order.Perm (s.dtab tname).keys) (nowt : ℤ) :
  (visit order tname nowt s).Right ↔ Fresh tname nowt s
  := by
  obtain ⟨hup, hdel, hcalls⟩ := visit_found s nowt order tname
  constructor
  · intro hright key tab hlookup
    have hnotup : nowt < tab.uptime := by
      by_contra hle
      have hmem := (hright.uptab key).mpr ⟨tab, hlookup, not_lt.mp hle⟩
      rw [hup] at hmem
      cases hmem
    have hnotdel : nowt < tab.deltime := by
      by_contra hle
      have hmem := (hright.deltab key).mpr ⟨tab, hlookup, not_lt.mp hle⟩
      rw [hdel] at hmem
      cases hmem
    have htimes : some (putOff s nowt tab) = some (⟨if tab.uptime ≤ nowt then s.time + s.updateTime
        else tab.uptime, if tab.deltime ≤ nowt then s.time + s.deleteTime else tab.deltime⟩ : DueTime) := by
      have hafter := hright.times key
      change ((visit order tname nowt s).after.dtab tname).lookup key =
        ((s.dtab tname).lookup key).map _ at hafter
      rw [visit_lookup h, hlookup] at hafter
      exact hafter
    rw [if_neg (not_le.mpr hnotup), if_neg (not_le.mpr hnotdel)] at htimes
    obtain ⟨hputup, hputdel⟩ := DueTime.mk.inj (Option.some.inj htimes)
    rw [if_pos (le_of_lt hnotup)] at hputup
    rw [if_pos (le_of_lt hnotdel)] at hputdel
    use hnotup, hputup.symm, hnotdel, hputdel.symm
  · intro hfresh
    have hnotup : ∀ key, ¬ Due DueTime.uptime (visit order tname nowt s) key := by
      rintro key ⟨tab, hlookup, hle⟩
      exact absurd hle (not_le.mpr (hfresh key tab hlookup).1)
    have hnotdel : ∀ key, ¬ Due DueTime.deltime (visit order tname nowt s) key := by
      rintro key ⟨tab, hlookup, hle⟩
      exact absurd hle (not_le.mpr (hfresh key tab hlookup).2.2.1)
    constructor
    · rw [hup]
      apply List.nodup_nil
    · intro key
      rw [hup]
      exact iff_of_false List.not_mem_nil (hnotup key)
    · rw [hdel]
      apply List.nodup_nil
    · intro key
      rw [hdel]
      exact iff_of_false List.not_mem_nil (hnotdel key)
    · intro key
      change ((visit order tname nowt s).after.dtab tname).lookup key =
        ((s.dtab tname).lookup key).map _
      rw [visit_lookup h]
      cases hlookup : (s.dtab tname).lookup key with
      | none => rfl
      | some tab =>
          obtain ⟨hltup, hup', hltdel, hdel'⟩ := hfresh key tab hlookup
          change some (putOff s nowt tab) = some (⟨if tab.uptime ≤ nowt then s.time + s.updateTime
            else tab.uptime, if tab.deltime ≤ nowt then s.time + s.deleteTime else tab.deltime⟩ : DueTime)
          rw [putOff, if_pos (le_of_lt hltup), if_pos (le_of_lt hltdel), if_neg (not_le.mpr hltup),
            if_neg (not_le.mpr hltdel), hup', hdel']
    · intro tname' hne
      exact Function.update_of_ne hne _ _
    · rw [hcalls]
      apply List.nodup_nil
    · intro key
      rw [hcalls]
      exact iff_of_false List.not_mem_nil (hnotup key)
    · intro key
      rw [hcalls]
      exact iff_of_false List.not_mem_nil fun hdropped => hnotdel key hdropped.2

/-! ### The visits of a call -/

/-- The first table of the order that has not been visited and has records is fresh. -/
def FirstFresh (nowt : ℤ) (read : TName → Bool) (s : State) : List TName → Prop
  | [] => True
  | tname :: order =>
      if read tname = false ∧ (s.dtab tname).keys ≠ [] then Fresh tname nowt s
      else FirstFresh nowt read s order

theorem firstFresh_congr {nowt : ℤ} {read read' : TName → Bool} {s : State} {order : List TName}
    (h : ∀ tname ∈ order, read tname = read' tname) :
  FirstFresh nowt read s order ↔ FirstFresh nowt read' s order
  := by
  induction order with
  | nil => exact Iff.rfl
  | cons tname order ih =>
      unfold FirstFresh
      rw [h tname List.mem_cons_self, ih fun t ht => h t (List.mem_cons_of_mem _ ht)]

/-- A table without records is left as it is, and nothing is found in it. -/
theorem checkTable_empty (h : order.Perm (s.dtab tname).keys) (hkeys : (s.dtab tname).keys = [])
    (nowt : ℤ) :
  checkTable s nowt order tname = (none, s)
  := by
  rw [hkeys] at h
  obtain rfl := h.eq_nil
  have hstate : { s with dtab := Function.update s.dtab tname (s.dtab tname) } = s := by
    rw [Function.update_eq_self]
  change (none, { s with dtab := Function.update s.dtab tname (s.dtab tname) }) = _
  rw [hstate]

/-- In a fresh table something is found to put off. -/
theorem checkTable_fresh (h : order.Perm (s.dtab tname).keys) (hkeys : (s.dtab tname).keys ≠ [])
    {nowt : ℤ} (hfresh : Fresh tname nowt s) :
  (checkTable s nowt order tname).1.isSome = true
  := by
  obtain ⟨key, hkey⟩ := List.exists_mem_of_ne_nil _ hkeys
  obtain ⟨tab, hlookup⟩ := Option.isSome_iff_exists.mp (AList.lookup_isSome.mpr (AList.mem_keys.mp hkey))
  rw [checkTable_found, if_pos]
  · rfl
  · apply temp_of_ahead s nowt (h.mem_iff.mpr hkey) hlookup
    exact le_of_lt (hfresh key tab hlookup).1

/-- The visits of a call are right precisely when the first table with records is fresh. -/
theorem visits_right_iff {orders : TName → List Value} (nowt : ℤ) {order : List TName}
    (hnodup : order.Nodup) (read : TName → Bool) {s : State}
    (horders : ∀ tname, (orders tname).Perm (s.dtab tname).keys) :
  (∀ x ∈ visits orders nowt order read s, x.Right) ↔ FirstFresh nowt read s order
  := by
  induction order generalizing read with
  | nil => exact iff_of_true (fun x hx => absurd hx List.not_mem_nil) trivial
  | cons tname order ih =>
      obtain ⟨hnot, hrest⟩ := List.nodup_cons.mp hnodup
      rw [visits, FirstFresh]
      cases hread : read tname with
      | true =>
          rw [if_pos rfl, if_neg fun h => Bool.false_ne_true h.1.symm]
          apply ih hrest
      | false =>
          rw [if_neg Bool.false_ne_true]
          dsimp only
          rw [List.forall_mem_cons, visit_right_iff (horders tname)]
          by_cases hkeys : (s.dtab tname).keys = []
          · have hfresh : Fresh tname nowt s := by
              intro key tab hlookup
              have hkey := AList.mem_keys.mp (AList.lookup_isSome.mp (Option.isSome_of_eq_some hlookup))
              rw [hkeys] at hkey
              cases hkey
            rw [checkTable_empty (horders tname) hkeys]
            dsimp only
            rw [ih hrest, if_neg fun h => h.2 hkeys, and_iff_right hfresh]
            apply firstFresh_congr
            intro t ht
            apply Function.update_of_ne
            rintro rfl
            exact hnot ht
          · have hfirst : (if false = false ∧ (s.dtab tname).keys ≠ [] then Fresh tname nowt s
                else FirstFresh nowt read s order) = Fresh tname nowt s := if_pos ⟨rfl, hkeys⟩
            rw [hfirst]
            constructor
            · exact fun h => h.1
            · intro hfresh
              use hfresh
              obtain ⟨found, hfound⟩ :=
                Option.isSome_iff_exists.mp (checkTable_fresh (horders tname) hkeys hfresh)
              rw [hfound]
              exact fun x hx => absurd hx List.not_mem_nil

end Visits

/-! ### Rounds -/

/-- The state of the scripts and the tables that are marked; the visits so far, the tables visited in this
round, and those visited in the rounds before. -/
structure Process where
  db : State
  read : TName → Bool
  visited : List Visit
  round : List TName
  rounds : List (List TName)

/-- What may happen next: the timer calls `timer_checkdb`, with the orders in which `pairs` visits the tables
and the keys of each, or anything else changes the state of the scripts. -/
inductive Label where
  | check (order : List TName) (orders : TName → List Value)
  | change (db : State)

/-- `timer_checkdb`, with the visits it makes.  A round ends when nothing is found. -/
def check (order : List TName) (orders : TName → List Value) (p : Process) : Process :=
  if p.db.isdestroyAll then p
  else
    let x := checkCache orders order p.read p.db
    let new := visits orders p.db.time order p.read p.db
    let round := p.round ++ new.map Visit.tname
    { db := x.2.2
      read := x.2.1
      visited := p.visited ++ new
      round := if x.1.isSome then round else []
      rounds := if x.1.isSome then p.rounds else p.rounds ++ [round] }

/-- The step function. -/
def step (p : Process) : Label → Option Process
  | .check order orders =>
      if order.Perm tables ∧ ∀ tname ∈ tables, (orders tname).Perm (p.db.dtab tname).keys then
        some (check order orders p)
      else none
  | .change db => some { p with db := db }

/-- No table has been visited. -/
def start (db : State) : Process where
  db := db
  read _ := false
  visited := []
  round := []
  rounds := []

/-- The machine of all runs. -/
def machine : Machine Process Label where
  init p := ∃ db, p = start db
  step := step

/-- All visits have been right, and every round has visited each table once. -/
structure ScansRight (p : Process) : Prop where
  visited : ∀ x ∈ p.visited, x.Right
  rounds : ∀ round ∈ p.rounds, round.Perm tables
  round : p.round.Nodup

/-- The timer does not find records first in a table that is not fresh. -/
def Settled (p : Process) : Label → Prop
  | .check order _ => p.db.isdestroyAll = true ∨ FirstFresh p.db.time p.read p.db order
  | .change _ => True

section Rounds

variable (orders : TName → List Value) (nowt : ℤ)

/-- A visit marks its table, and nothing else does. -/
theorem checkTables_read (order : List TName) (read : TName → Bool) (s : State) (t : TName) :
  (checkTables orders nowt order read s).2.1 t = true ↔
    read t = true ∨ t ∈ (visits orders nowt order read s).map Visit.tname
  := by
  induction order generalizing read s with
  | nil => exact (or_iff_left List.not_mem_nil).symm
  | cons tname order ih =>
      rw [checkTables, visits]
      split
      · apply ih
      · have hmark : Function.update read tname true t = true ↔ read t = true ∨ t = tname := by
          rcases eq_or_ne t tname with rfl | hne
          · rw [Function.update_self]
            exact iff_of_true rfl (.inr rfl)
          · rw [Function.update_of_ne hne, or_iff_left hne]
        dsimp only
        rw [List.map_cons, List.mem_cons]
        cases (checkTable s nowt (orders tname) tname).1 with
        | none =>
            dsimp only
            rw [ih, hmark, or_assoc]
            exact Iff.rfl
        | some found =>
            dsimp only
            rw [hmark]
            exact or_congr_right (or_iff_left List.not_mem_nil).symm

/-- The tables that are visited are those that were not marked, each once. -/
theorem visits_nodup {order : List TName} (h : order.Nodup) (read : TName → Bool) (s : State) :
  ((visits orders nowt order read s).map Visit.tname).Nodup ∧
    ∀ t ∈ (visits orders nowt order read s).map Visit.tname, t ∈ order ∧ read t = false
  := by
  induction order generalizing read s with
  | nil => exact ⟨List.nodup_nil, fun t ht => absurd ht List.not_mem_nil⟩
  | cons tname order ih =>
      obtain ⟨hnot, hrest⟩ := List.nodup_cons.mp h
      rw [visits]
      split
      · obtain ⟨hnodup, hmem⟩ := ih hrest read s
        use hnodup
        intro t ht
        use List.mem_cons_of_mem _ (hmem t ht).1, (hmem t ht).2
      · next hread =>
          have hfalse : read tname = false := eq_false_of_ne_true hread
          dsimp only
          cases (checkTable s nowt (orders tname) tname).1 with
          | some found =>
              use List.nodup_singleton _
              intro t ht
              obtain rfl := List.mem_singleton.mp ht
              use List.mem_cons_self, hfalse
          | none =>
              obtain ⟨hnodup, hmem⟩ := ih hrest (Function.update read tname true)
                (checkTable s nowt (orders tname) tname).2
              constructor
              · apply List.nodup_cons.mpr
                use fun hvisited => hnot (hmem tname hvisited).1
              · intro t ht
                rcases List.mem_cons.mp ht with rfl | ht
                · use List.mem_cons_self, hfalse
                · obtain ⟨hin, hunread⟩ := hmem t ht
                  have hne : t ≠ tname := by
                    rintro rfl
                    exact hnot hin
                  rw [Function.update_of_ne hne] at hunread
                  use List.mem_cons_of_mem _ hin, hunread

/-- When nothing is found, all tables have been marked. -/
theorem checkTables_none {order : List TName} {read : TName → Bool} {s : State}
    (h : (checkTables orders nowt order read s).1 = none) :
  ∀ t ∈ order, (checkTables orders nowt order read s).2.1 t = true
  := by
  induction order generalizing read s with
  | nil => exact fun t ht => absurd ht List.not_mem_nil
  | cons tname order ih =>
      intro t ht
      apply (checkTables_read orders nowt (tname :: order) read s t).mpr
      rw [checkTables] at h
      rw [visits]
      split at h
      · next hread =>
          rw [if_pos hread]
          rcases List.mem_cons.mp ht with rfl | ht
          · exact .inl hread
          · apply (checkTables_read orders nowt order read s t).mp (ih h t ht)
      · next hread =>
          rw [if_neg hread]
          dsimp only at h ⊢
          cases hfound : (checkTable s nowt (orders tname) tname).1 with
          | some found =>
              rw [hfound] at h
              cases h
          | none =>
              rw [hfound] at h
              dsimp only at h ⊢
              rw [List.map_cons, List.mem_cons]
              rcases List.mem_cons.mp ht with rfl | ht
              · right
                left
                rfl
              · rcases eq_or_ne t tname with rfl | hne
                · right
                  left
                  rfl
                · have hmarked := (checkTables_read orders nowt order _ _ t).mp (ih h t ht)
                  rw [Function.update_of_ne hne] at hmarked
                  exact hmarked.imp_right .inr

/-- No keys are ever found. -/
theorem checkTables_found {order : List TName} {read : TName → Bool} {s : State} {tname : TName}
    {uptab deltab : List Value}
    (h : (checkTables orders nowt order read s).1 = some (tname, uptab, deltab)) :
  uptab = [] ∧ deltab = []
  := by
  induction order generalizing read s with
  | nil => cases h
  | cons t order ih =>
      rw [checkTables] at h
      split at h
      · apply ih h
      · dsimp only at h
        cases hfound : (checkTable s nowt (orders t) t).1 with
        | none =>
            rw [hfound] at h
            apply ih h
        | some found =>
            rw [hfound] at h
            rw [checkTable_found] at hfound
            split at hfound
            · obtain rfl := Option.some.inj hfound
              obtain ⟨-, heq⟩ := Prod.mk.inj (Option.some.inj h)
              obtain ⟨rfl, rfl⟩ := Prod.mk.inj heq
              exact ⟨rfl, rfl⟩
            · cases hfound

theorem checkCache_eq (order : List TName) (read : TName → Bool) (s : State) :
  checkCache orders order read s =
    let x := checkTables orders s.time order read s
    (x.1, if x.1.isSome then x.2.1 else fun _ => false, x.2.2)
  := by
  unfold checkCache
  rcases checkTables orders s.time order read s with ⟨found, read', s'⟩
  cases found with
  | none => rfl
  | some found => rfl

end Rounds

/-! ### Runs -/

/-- The tables that are marked are those visited in this round. -/
def Marked (p : Process) : Prop :=
  ∀ tname, p.read tname = true ↔ tname ∈ p.round

theorem tables_nodup :
  tables.Nodup
  := by decide

theorem mem_tables (tname : TName) :
  tname ∈ tables
  := by
  cases tname <;> decide

/-- The timer writes nothing: it calls no service, and goes on at once. -/
theorem timerCheckdb_resume (order : List TName) (orders : TName → List Value) (p : Process) :
  (timerCheckdb orders order p.read).resume p.db =
    ⟨[], (check order orders p).db, .returned (check order orders p).read⟩
  := by
  unfold check
  cases hdestroy : p.db.isdestroyAll with
  | true =>
      have hstop : (timerCheckdb orders order p.read).resume p.db = ⟨[], p.db, .returned p.read⟩ := by
        simp only [timerCheckdb, Coroutine.get, Coroutine.read_bind, Coroutine.ret_bind,
          Coroutine.resume, hdestroy, if_true]
        rfl
      rw [hstop]
      rfl
  | false =>
      have hcalls : ∀ tname uptab deltab, (checkCache orders order p.read p.db).1 =
          some (tname, uptab, deltab) → updateCalls tname uptab deltab = [] := by
        intro tname uptab deltab hfound
        rw [checkCache_eq] at hfound
        obtain ⟨rfl, rfl⟩ := checkTables_found _ _ hfound
        unfold updateCalls
        split
        · rfl
        · rfl
      simp only [timerCheckdb, Coroutine.get, Coroutine.modify, Coroutine.read_bind,
        Coroutine.write_bind, Coroutine.ret_bind, Coroutine.resume, hdestroy, Bool.false_eq_true,
        if_false]
      cases hfound : (checkCache orders order p.read p.db).1 with
      | none => rfl
      | some found =>
          obtain ⟨tname, uptab, deltab⟩ := found
          dsimp only
          rw [hcalls tname uptab deltab hfound]
          rfl

/-- A call of the timer keeps the rounds as they should be. -/
theorem check_rounds {order : List TName} (h : order.Perm tables) (orders : TName → List Value)
    {p : Process} (hmarked : Marked p) (hround : p.round.Nodup)
    (hrounds : ∀ round ∈ p.rounds, round.Perm tables) :
  Marked (check order orders p) ∧ (check order orders p).round.Nodup ∧
    ∀ round ∈ (check order orders p).rounds, round.Perm tables
  := by
  have hnodup : order.Nodup := h.nodup_iff.mpr tables_nodup
  unfold check
  split
  · exact ⟨hmarked, hround, hrounds⟩
  · obtain ⟨hnew, hmem⟩ := visits_nodup orders p.db.time hnodup p.read p.db
    have hread := checkTables_read orders p.db.time order p.read p.db
    have hall : (p.round ++ (visits orders p.db.time order p.read p.db).map Visit.tname).Nodup := by
      apply List.nodup_append.mpr
      use hround, hnew
      rintro t ht t' ht' rfl
      have hunread := (hmem t ht').2
      rw [(hmarked t).mpr ht] at hunread
      cases hunread
    have hmark : ∀ t, (checkTables orders p.db.time order p.read p.db).2.1 t = true ↔
        t ∈ p.round ++ (visits orders p.db.time order p.read p.db).map Visit.tname := by
      intro t
      rw [hread, List.mem_append, hmarked t]
    rw [checkCache_eq]
    dsimp only
    cases hfound : (checkTables orders p.db.time order p.read p.db).1 with
    | some found => exact ⟨hmark, hall, hrounds⟩
    | none =>
        refine ⟨fun t => iff_of_false Bool.false_ne_true List.not_mem_nil, List.nodup_nil, ?_⟩
        intro round hin
        rcases List.mem_append.mp hin with hin | hin
        · exact hrounds round hin
        · obtain rfl := List.mem_singleton.mp hin
          apply (List.perm_ext_iff_of_nodup hall tables_nodup).mpr
          intro t
          apply iff_of_true _ (mem_tables t)
          apply (hmark t).mp
          apply checkTables_none _ _ hfound t (h.mem_iff.mpr (mem_tables t))

theorem Marked.step {p p' : Process} (hmarked : Marked p) (h : ScansRight p) {l : Label}
    (hstep : step p l = some p') :
  Marked p'
  := by
  cases l with
  | change db =>
      obtain rfl := Option.some.inj hstep
      exact hmarked
  | check order orders =>
      dsimp only [DueRecords.step] at hstep
      split at hstep
      · next hperm =>
          obtain rfl := Option.some.inj hstep
          exact (check_rounds hperm.1 orders hmarked h.round h.rounds).1
      · cases hstep

/-- A step of a run that has been right is right precisely when the timer finds no records first in a table that
is not fresh. -/
theorem ScansRight.step_iff {p p' : Process} (h : ScansRight p) (hmarked : Marked p) {l : Label}
    (hstep : step p l = some p') :
  ScansRight p' ↔ Settled p l
  := by
  cases l with
  | change db =>
      obtain rfl := Option.some.inj hstep
      apply iff_of_true _ trivial
      use h.visited, h.rounds, h.round
  | check order orders =>
      dsimp only [DueRecords.step] at hstep
      split at hstep
      · next hperm =>
          obtain rfl := Option.some.inj hstep
          obtain ⟨horder, horders⟩ := hperm
          obtain ⟨-, hround, hrounds⟩ := check_rounds horder orders hmarked h.round h.rounds
          have hright : (∀ x ∈ visits orders p.db.time order p.read p.db, x.Right) ↔
              FirstFresh p.db.time p.read p.db order := by
            apply visits_right_iff p.db.time (horder.nodup_iff.mpr tables_nodup)
            exact fun tname => horders tname (mem_tables tname)
          cases hdestroy : p.db.isdestroyAll with
          | true =>
              have hstop : check order orders p = p := by rw [check, hdestroy, if_pos rfl]
              rw [hstop]
              exact iff_of_true h (.inl hdestroy)
          | false =>
              have hvisited : (check order orders p).visited =
                  p.visited ++ visits orders p.db.time order p.read p.db := by
                rw [check, hdestroy, if_neg Bool.false_ne_true]
              have hsettled : Settled p (.check order orders) ↔
                  ∀ x ∈ visits orders p.db.time order p.read p.db, x.Right := by
                rw [hright]
                apply or_iff_right
                rw [hdestroy]
                exact Bool.false_ne_true
              rw [hsettled]
              constructor
              · intro h' x hx
                apply h'.visited
                rw [hvisited]
                apply List.mem_append_right _ hx
              · intro hnew
                refine ⟨?_, hrounds, hround⟩
                intro x hx
                rw [hvisited] at hx
                rcases List.mem_append.mp hx with hx | hx
                · apply h.visited x hx
                · apply hnew x hx
      · cases hstep

theorem start_right (db : State) :
  ScansRight (start db)
  := by
  use fun x hx => absurd hx List.not_mem_nil, fun x hx => absurd hx List.not_mem_nil
  exact List.nodup_nil

theorem start_marked (db : State) :
  Marked (start db)
  := fun _ => iff_of_false Bool.false_ne_true List.not_mem_nil

/-- `_checkCache` does what it should precisely when no record of the table is due and each has been used in this
second.  A run of the timer, whatever else happens in between, goes through the tables round after round and
deals with the records that are due precisely when it never finds records first in a table that is not so. -/
theorem due_records_right_iff (s : State) :
  (∀ (order : List Value) (tname : TName) (nowt : ℤ), order.Perm (s.dtab tname).keys →
    ((visit order tname nowt s).Right ↔ Fresh tname nowt s)) ∧
  ∀ ls : List Label, machine.Always ScansRight (start s) ls ↔ machine.Guarded Settled (start s) ls
  := by
  constructor
  · intro order tname nowt h
    apply visit_right_iff h
  · intro ls
    have hguarded : machine.Always (fun p => ScansRight p ∧ Marked p) (start s) ls ↔
        machine.Guarded Settled (start s) ls := by
      apply Machine.always_iff_guarded _ ⟨start_right s, start_marked s⟩
      rintro p l p' ⟨hright, hmarked⟩ hstep
      rw [and_iff_left (hmarked.step hright hstep)]
      apply hright.step_iff hmarked hstep
    rw [← hguarded]
    constructor
    · intro h
      apply h.strengthen _ ⟨start_right s, start_marked s⟩
      rintro p l p' ⟨hright, hmarked⟩ hstep hright'
      use hright'
      apply hmarked.step hright hstep
    · intro h
      apply h.mono
      exact fun p hp => hp.1

/-- The state when a record of a user has been used at the time 0. -/
def oneRecord : State :=
  resetUpdateFunc .user (.num 1000) (initial ⟨[1], nofun, List.nodup_singleton 1⟩)

theorem due_records_right_used :
  (visit [.num 1000] .user 0 oneRecord).Right ∧
    machine.Always ScansRight (start oneRecord) [.check tables fun tname => (oneRecord.dtab tname).keys]
  := by
  have hfresh : Fresh .user 0 oneRecord := by
    intro key tab hlookup
    rcases eq_or_ne key (.num 1000) with rfl | hne
    · obtain rfl := Option.some.inj hlookup
      decide
    · have hnone : (oneRecord.dtab .user).lookup key = none := AList.lookup_insert_ne hne
      rw [hnone] at hlookup
      cases hlookup
  constructor
  · apply ((due_records_right_iff oneRecord).1 [.num 1000] .user 0 (List.Perm.refl _)).mpr hfresh
  · apply ((due_records_right_iff oneRecord).2 _).mpr
    intro p hp
    use .inr hfresh
    trivial

/-- A record whose time has come is not found. -/
theorem due_record_not_found :
  ¬ ∀ (order : List Value) (tname : TName) (nowt : ℤ) (s : State), order.Perm (s.dtab tname).keys →
    (visit order tname nowt s).Right
  := by
  intro h
  have hright := h [.num 1000] .user 700 { oneRecord with time := 700 } (List.Perm.refl _)
  have hmem := (hright.uptab (.num 1000)).mpr ⟨⟨600, 900⟩, rfl, by decide⟩
  rw [(visit_found _ _ _ _).1] at hmem
  cases hmem

end DueRecords
