import FWServer.Db.Database
import FWServer.Kernel.Threads

/-!
# Independent records

The tables in the cache are kept apart: no two keys share one, and none is the table of the
defaults.  Every function of the database preserves this but the one that creates a record:
`setDefaultRecord` caches the table of the defaults itself.
-/

open Lua Script DbCache

namespace Database

/-! ### What is to hold -/

/-- Every cached record has its key in the primary-key field. -/
def Keyed (s : State) : Prop :=
  ∀ tname key rectab, (s.cache tname).lookup key = some rectab →
    (s.deref rectab).get (dbtable tname).pkey = key

/-- Assigning a field of one record changes neither what `get` returns for another nor the
defaults. -/
def Independent (s : State) : Prop :=
  ∀ (h : Handle) (k fv : Value),
    let s' := ((set h k fv).resume s).state
    (∀ h' ≠ h, ∀ k', ((get h' k').resume s').halt = ((get h' k').resume s).halt) ∧
      ∀ tname, s'.detail tname = s.detail tname

/-- The cached tables have been created one for each key, and are keyed. -/
structure Separated (s : State) : Prop where
  created : ∀ tname key rectab, (s.cache tname).lookup key = some rectab →
    ∃ n < s.heap.next, rectab = .created n
  injective : ∀ tname key rectab tname' key', (s.cache tname).lookup key = some rectab →
    (s.cache tname').lookup key' = some rectab → tname = tname' ∧ key = key'
  keyed : Keyed s

/-! ### How the records are kept apart -/

namespace Separated

variable {s : State}

theorem record_eq {s : State} {tname : TName} {key : Value} {rectab : Ref TName}
    (h : record s tname key = some rectab) :
  (s.cache tname).lookup key = some rectab
  := by
  rw [record] at h
  split at h
  · exact h
  · cases h

/-- Assigning a field that is not the primary key. -/
theorem assign (hs : Separated s) {tname : TName} {key : Value} {rectab : Ref TName}
    (hrec : (s.cache tname).lookup key = some rectab) {k : Value}
    (hk : k ≠ (dbtable tname).pkey) (v : Value) :
  Separated { s with heap := s.heap.assign rectab k v }
  := by
  constructor
  · exact hs.created
  · exact hs.injective
  · intro tname' key' rectab' hrec'
    have hkeyed := hs.keyed tname' key' rectab' hrec'
    rcases eq_or_ne rectab' rectab with rfl | hne
    · obtain ⟨rfl, rfl⟩ := hs.injective _ _ _ _ _ hrec hrec'
      dsimp only [State.deref]
      rw [Heap.assign_cells_self, Table.get_set_of_ne _ hk.symm]
      exact hkeyed
    · dsimp only [State.deref]
      rw [Heap.assign_cells_of_ne _ hne]
      exact hkeyed

/-- Creating a table that is not cached. -/
theorem alloc (hs : Separated s) (t : Table) (d : TName → AList fun _ : Value => DueTime) :
  Separated { s with heap := s.heap.alloc t, dtab := d }
  := by
  constructor
  · intro tname key rectab hrec
    obtain ⟨n, hn, rfl⟩ := hs.created tname key rectab hrec
    exact ⟨n, Nat.lt_succ_of_lt hn, rfl⟩
  · exact hs.injective
  · intro tname key rectab hrec
    obtain ⟨n, hn, rfl⟩ := hs.created tname key rectab hrec
    have hne : (Ref.created n : Ref TName) ≠ .created s.heap.next := by
      rintro ⟨⟩
      exact lt_irrefl _ hn
    dsimp only [State.deref]
    rw [Heap.alloc_cells_of_ne _ _ hne]
    exact hs.keyed tname key _ hrec

/-- Caching a record in a table created for it. -/
theorem put (hs : Separated s) (tname : TName) (t : Table)
    (d : TName → AList fun _ : Value => DueTime) :
  Separated { s with
    heap := s.heap.alloc t
    dtab := d
    cache := Function.update s.cache tname
      ((s.cache tname).insert (t.get (dbtable tname).pkey) (.created s.heap.next)) }
  := by
  have hs' := hs.alloc t d
  have hfresh : ∀ tname' key', (s.cache tname').lookup key' ≠ some (.created s.heap.next) := by
    intro tname' key' hrec
    obtain ⟨n, hn, heq⟩ := hs.created _ _ _ hrec
    cases heq
    exact lt_irrefl _ hn
  constructor
  · intro tname' key' rectab hrec
    rw [lookup_insert] at hrec
    split at hrec
    · exact ⟨s.heap.next, Nat.lt_succ_self _, (Option.some.inj hrec).symm⟩
    · exact hs'.created tname' key' rectab hrec
  · intro tname₁ key₁ rectab tname₂ key₂ h₁ h₂
    rw [lookup_insert] at h₁ h₂
    split at h₁ <;> split at h₂
    · next h h' => exact ⟨h.1.trans h'.1.symm, h.2.trans h'.2.symm⟩
    · cases h₁
      exact absurd h₂ (hfresh _ _)
    · cases h₂
      exact absurd h₁ (hfresh _ _)
    · exact hs.injective _ _ _ _ _ h₁ h₂
  · intro tname' key' rectab hrec
    dsimp only at hrec
    rw [lookup_insert] at hrec
    split at hrec
    · next h =>
        obtain ⟨rfl, rfl⟩ := h
        cases hrec
        dsimp only [State.deref]
        rw [Heap.alloc_cells_self]
    · exact hs'.keyed tname' key' rectab hrec

/-- Dropping a record. -/
theorem remove (hs : Separated s) (tname : TName) (key : Value) :
  Separated { s with cache := Function.update s.cache tname ((s.cache tname).erase key) }
  := by
  have hold : ∀ tname' key' rectab,
      (Function.update s.cache tname ((s.cache tname).erase key) tname').lookup key'
        = some rectab → (s.cache tname').lookup key' = some rectab := by
    intro tname' key' rectab hrec
    rw [lookup_erase] at hrec
    split at hrec
    · cases hrec
    · exact hrec
  constructor
  · exact fun _ _ _ hrec => hs.created _ _ _ (hold _ _ _ hrec)
  · exact fun _ _ _ _ _ h₁ h₂ => hs.injective _ _ _ _ _ (hold _ _ _ h₁) (hold _ _ _ h₂)
  · exact fun _ _ _ hrec => hs.keyed _ _ _ (hold _ _ _ hrec)

/-- Assignments to records kept apart are independent. -/
theorem independent (hs : Separated s) :
  Independent s
  := by
  intro h k fv s'
  obtain ⟨s₁, hs₁ | ⟨rectab, v, hrec, hk, hs₁⟩, hset⟩ := set_resume_cases h k fv s
  all_goals
    have hs' : s' = s₁ := by
      rcases hset with hset | ⟨e, hset⟩ <;> simp only [s', hset]
    rw [hs', hs₁]
  · exact ⟨fun _ _ _ => rfl, fun _ => rfl⟩
  · have hlookup := record_eq hrec
    obtain ⟨n, -, hn⟩ := hs.created _ _ _ hlookup
    have hdetail : ∀ tname, ({ s with heap := s.heap.assign rectab k v } : State).detail tname
        = s.detail tname := by
      intro tname
      apply Heap.assign_cells_of_ne
      rw [hn]
      rintro ⟨⟩
    use ?_, hdetail
    intro h' hne k'
    apply get_resume_congr _ (hdetail _)
    rw [rawField, rawField]
    have hrecord : record { s with heap := s.heap.assign rectab k v } h'.tabname h'.recordKey
        = record s h'.tabname h'.recordKey := rfl
    rw [hrecord]
    cases hrec' : record s h'.tabname h'.recordKey with
    | none => rfl
    | some rectab' =>
        have hother : rectab' ≠ rectab := by
          rintro rfl
          obtain ⟨htname, hkey⟩ := hs.injective _ _ _ _ _ (record_eq hrec') hlookup
          apply hne
          cases h
          cases h'
          subst htname hkey
          rfl
        dsimp only [State.deref]
        rw [Heap.assign_cells_of_ne _ hother]

end Separated

/-! ### Runs -/

/-- The operations on the database. -/
inductive Op where
  | query (tname : TName) (key : Value)
  | insert (tname : TName) (key : Value)
  | set (h : Handle) (field value : Value)
  | update (h : Handle)

/-- What a coroutine runs for an operation. -/
def Op.code : Op → Script Unit
  | .query tname key => do
      let _ ← Database.query tname key
      pure ()
  | .insert tname key => do
      let _ ← Database.insert tname key
      pure ()
  | .set h field value => Database.set h field value
  | .update h => Database.update h

/-- An insert is answered with a key that is cached by then, if it is answered without an
error. -/
def KeyIsCached : Call → Except String Answer → State → Prop
  | .redis _ (.insert tname _), .ok ret, s => ((s.cache tname).lookup ret.val).isSome = true
  | _, _, _ => True

section Ensures

variable {s : State}

theorem Separated.nextInTurn (hs : Separated s) :
  Separated (nextInTurn s)
  := ⟨hs.created, hs.injective, hs.keyed⟩

/-- Records that have been loaded are cached in tables of their own. -/
theorem cacheRecords_ensures (tname : TName) (recs : List Table) (hs : Separated s) :
  (cacheRecords tname recs).Ensures KeyIsCached Separated (fun _ => Separated) s
  := by
  induction recs generalizing s with
  | nil => exact hs
  | cons rtab recs ih =>
      obtain ⟨d, hd⟩ := cacheRecords_cons_resume tname rtab recs s
      split at hd
      · rw [Coroutine.ensures_iff_resume, hd]
        exact hs.alloc rtab d
      · rw [Coroutine.ensures_congr hd]
        exact ih (hs.put tname rtab d)

/-- A handle caches records that have been loaded, but no default record. -/
theorem init_ensures (tname : TName) (key : Value) (binsert : Bool) (hs : Separated s) :
  (init tname key binsert).Ensures KeyIsCached Separated (fun _ => Separated) s
  := by
  obtain ⟨e, he⟩ := init_resume tname key binsert
  rw [Coroutine.ensures_iff_resume, he]
  cases handlerInTurn s with
  | none => exact hs.nextInTurn
  | some redis =>
      cases (record s tname key).isSome with
      | true => exact hs.nextInTurn
      | false =>
          cases binsert with
          | true =>
              cases key.truthy || (dbtable tname).auto with
              | true =>
                  use hs.nextInTurn
                  rintro (e | ret) s' hs' hcached
                  · exact hs'
                  · -- the key being cached, `setDefaultRecord` raises its error
                    have hraise := setDefaultRecord_resume_of_cached hcached
                    dsimp only
                    rw [ofReply_ok_bind, Coroutine.ensures_iff_resume, inserted,
                      Coroutine.resume_bind_of_raised hraise]
                    exact hs'
              | false => exact hs.nextInTurn
          | false =>
              use hs.nextInTurn
              rintro (e | ret) s' hs' -
              · exact hs'
              · dsimp only
                rw [ofReply_ok_bind, queried, Coroutine.ensures_bind]
                exact cacheRecords_ensures tname ret.tabs hs'

theorem updateTab_ensures (tname : TName) (reckey : Value) (bRmCache : Bool)
    (hs : Separated s) :
  (updateTab tname reckey bRmCache).Ensures KeyIsCached Separated (fun _ => Separated) s
  := by
  obtain ⟨e, he⟩ := updateTab_resume tname reckey bRmCache
  rw [Coroutine.ensures_iff_resume, he]
  cases handlerInTurn s with
  | none => exact hs.nextInTurn
  | some redis =>
      cases record s tname reckey with
      | none => exact hs.nextInTurn
      | some rectab =>
          use hs.nextInTurn
          rintro (e | ret) s' hs' -
          · exact hs'
          · dsimp only
            rw [ofReply_ok_bind, updated]
            split
            · exact hs'.remove tname reckey
            · exact hs'

/-- Operations run on a cache of separate records keep them separate while no insert is
answered with a key that is not cached. -/
theorem Op.ensures (op : Op) (hs : Separated s) :
  op.code.Ensures KeyIsCached Separated (fun _ => Separated) s
  := by
  cases op with
  | query tname key =>
      rw [Op.code, Coroutine.ensures_bind]
      exact init_ensures tname key false hs
  | insert tname key =>
      rw [Op.code, Coroutine.ensures_bind]
      exact init_ensures tname key true hs
  | set h k fv =>
      obtain ⟨s', hs', hset⟩ := set_resume_cases h k fv s
      have hsep : Separated s' := by
        rcases hs' with rfl | ⟨rectab, v, hrec, hk, rfl⟩
        · exact hs
        · exact hs.assign (Separated.record_eq hrec) hk v
      rw [Op.code, Coroutine.ensures_iff_resume]
      rcases hset with hset | ⟨e, hset⟩ <;>
        rw [hset] <;>
        exact hsep
  | update h =>
      rw [Op.code, Database.update]
      split
      · exact updateTab_ensures _ _ _ hs
      · exact hs

end Ensures

section Runs

variable {ω E : Type}

/-- The script process runs an operation after the other or several at a time, over any
services. -/
def operations (issue : ℕ → Call → ω → ω) (react : E → ω → Option ω)
    (collect : ℕ → ω → Option (Except String Answer × ω)) :
    Plant Script.interface Unit ω Op E Unit where
  home _ := ()
  code := Op.code
  issue := issue
  react := react
  collect := collect

/-- Nothing is cached and no operation has begun. -/
def NothingCached (s : Plant.State Script.interface Unit ω Op Unit) : Prop :=
  (∀ tname, (s.process ()).cache tname = ∅) ∧ ∀ n, s.waiting n = none

/-- In every state reached while no insert is answered with a key that is not cached, every
cached record has its key in the primary-key field, and assignments are independent. -/
theorem records_independent (issue : ℕ → Call → ω → ω) (react : E → ω → Option ω)
    (collect : ℕ → ω → Option (Except String Answer × ω))
    {s : Plant.State Script.interface Unit ω Op Unit}
    (h : ((operations issue react collect).machine NothingCached).Reaches
      ((operations issue react collect).Assumed KeyIsCached) s) :
  Keyed (s.process ()) ∧ Independent (s.process ())
  := by
  have hsep : Separated (s.process ()) := by
    apply Plant.processes_satisfy _ _ _ h
    · rintro s ⟨hcache, hwaiting⟩
      refine ⟨?_, hwaiting⟩
      rintro ⟨⟩
      constructor
      · intro tname key rectab hrec
        rw [hcache] at hrec
        cases hrec
      · intro tname key rectab tname' key' hrec
        rw [hcache] at hrec
        cases hrec
      · intro tname key rectab hrec
        rw [hcache] at hrec
        cases hrec
    · exact fun op s hs => op.ensures hs
  exact ⟨hsep.keyed, hsep.independent⟩

end Runs

/-- Services that give every call the same answer. -/
def answering (a : Answer) : Plant Script.interface Unit Unit Op Empty Unit :=
  operations (fun _ _ w => w) (fun e _ => nomatch e) (fun _ w => some (.ok a, w))

/-- The scripts have just started. -/
def started : Plant.State Script.interface Unit Unit Op Unit where
  process _ := initial ⟨[10, 11, 12, 13], fourServices_ne_nil, fourServices_nodup⟩
  network := ()
  waiting _ := none
  fresh := 0
  outputs := []
  ended := []

/-- A user that has been loaded is keyed and independent of the others. -/
theorem records_independent_loaded :
  let user := Table.ofFields [("userId", .num 1001), ("gold", .num 100)]
  ∃ s, ((answering (.records [user])).machine NothingCached).exec started
      [.start (.query .user (.num 1001)), .wake 0] = some s ∧
    Keyed (s.process ()) ∧ Independent (s.process ())
  := by
  intro user
  have hguarded : ((answering (.records [user])).machine NothingCached).Guarded
      ((answering (.records [user])).Assumed KeyIsCached) started
      [.start (.query .user (.num 1001)), .wake 0] := by
    intro s₁ h₁
    obtain rfl := Option.some.inj h₁
    refine ⟨trivial, fun s₂ h₂ => ⟨?_, trivial⟩⟩
    intro t r w ht hr
    cases ht
    exact trivial
  have hinit : NothingCached started := ⟨fun _ => rfl, fun _ => rfl⟩
  have hreach := Machine.Reaches.exec _ (.init hinit) hguarded rfl
  exact ⟨_, rfl, records_independent _ _ _ hreach⟩

/-- Giving gold to the first user that is created gives it to every later one: it is assigned to
the defaults. -/
theorem default_record_shared :
  ∃ s, ((answering (.value (.num 1001))).machine NothingCached).exec started
      [.start (.insert .user .nil), .wake 0] = some s ∧
    ¬ Independent (s.process ())
  := by
  refine ⟨_, rfl, ?_⟩
  intro h
  have hdetail := (h ⟨.user, .num 1001⟩ (.str "gold") (.num 100)).2 .user
  have hgold := congrArg (fun t => t.get (.str "gold")) hdetail
  revert hgold
  decide

end Database
